import PoolUplink.Proofs.Uplink.Outcome

/-!
# The order of answers

A pool that answers each exchange once may do so in any order, and say anything between that means
nothing to an uplink. The handshake comes to the same end.
-/

set_option autoImplicit false
set_option relaxedAutoImplicit false

namespace PoolUplink

open PoolUplink.Json (Value)
open PoolUplink.Rpc (Message)
open PoolUplink.Rpc.Setup (Exchange)
open PoolUplink.Wire (Item Reading Inbound Outbound Packet)

/-- An item that says nothing to an uplink: a frame, a line that is no message, a request other
than to set the version mask, or a response with an id that belongs to no exchange. -/
inductive Noise : Item → Prop
  | frame (header : Wire.Frame.Header) : Noise (.frame header)
  | garbled {bytes : List UInt8} {fault : Json.Fault} :
      Message.ofLine bytes = .error fault → Noise (.line bytes)
  | request {bytes : List UInt8} {id : Option Value} {method : String} {params : Value} :
      Message.ofLine bytes = .ok (.request id method params) →
      method ≠ "mining.set_version_mask" → Noise (.line bytes)
  | stray {bytes : List UInt8} {id result error : Option Value} :
      Message.ofLine bytes = .ok (.response id result error) →
      (∀ e : Exchange, id ≠ some (.string e.id)) → Noise (.line bytes)

private theorem Noise.notice {item : Item} (h : Noise item) :
    Notice.ofItem item = .ok .idle ∨ Notice.ofItem item = .ok .strange := by
  cases h with
  | frame header => exact Or.inl rfl
  | garbled hm =>
    left
    simp only [Notice.ofItem, hm]
  | request hm hne =>
    left
    simp only [Notice.ofItem, hm, Notice.ofMessage, Notice.ofRequest, if_neg hne]
  | @stray bytes id result error hm hid =>
    right
    have hnone : (id.bind Value.string?).bind Exchange.ofId? = none := by
      cases he : (id.bind Value.string?).bind Exchange.ofId? with
      | none => rfl
      | some e => exact absurd (exchange_of_id.mp he) (hid e)
    simp only [Notice.ofItem, hm, Notice.ofMessage, hnone]

namespace Notice

private theorem mem_ofUnits {us : List (Reading Item)} {n : Notice} :
    n ∈ ofUnits us ↔ ∃ item, .got item ∈ us ∧ ofItem item = .ok n := by
  unfold ofUnits
  rw [List.mem_filterMap]
  constructor
  · rintro ⟨x, hx, hn⟩
    cases x with
    | waiting => cases hn
    | failed fault => cases hn
    | got item =>
      refine ⟨item, hx, ?_⟩
      cases h : ofItem item with
      | error fault =>
        simp only [h] at hn
        cases hn
      | ok m =>
        simp only [h] at hn
        cases hn
        rfl
  · rintro ⟨item, hx, hn⟩
    refine ⟨_, hx, ?_⟩
    simp only [hn]
    rfl

private theorem grant?_eq_some {n : Notice} {s : Subscription} :
    n.grant? = some s ↔ n = granted s := by
  cases n <;> simp [grant?]

private theorem features?_eq_some {n : Notice} {f : Features} :
    n.features? = some f ↔ n = featured f := by
  cases n <;> simp [features?]

private theorem answer?_eq_subscribe {n : Notice} (h : n.answer? = some .subscribe) :
    ∃ s, n = granted s := by
  cases n <;> simp [answer?] at h ⊢

private theorem answer?_eq_features {n : Notice} (h : n.answer? = some .features) :
    ∃ f, n = featured f := by
  cases n <;> simp [answer?] at h ⊢

private theorem answer?_eq_authorize {n : Notice} (h : n.answer? = some .authorize) :
    n = authorized := by
  cases n <;> simp [answer?] at h ⊢

end Notice

private theorem granted_of_answers {item : Item} (h : Answers .subscribe (.got item))
    (hf : ¬ Fatal (.got item)) : ∃ s, Notice.ofItem item = .ok (.granted s) := by
  obtain ⟨_, n, he, hn⟩ := exists_notice hf
  cases he
  obtain ⟨s, rfl⟩ := Notice.answer?_eq_subscribe ((answers_iff hn _).mp h)
  exact ⟨s, hn⟩

private theorem authorized_of_answers {item : Item} (h : Answers .authorize (.got item))
    (hf : ¬ Fatal (.got item)) : Notice.ofItem item = .ok .authorized := by
  obtain ⟨_, n, he, hn⟩ := exists_notice hf
  cases he
  rw [hn, Notice.answer?_eq_authorize ((answers_iff hn _).mp h)]

private theorem getLast?_filterMap_of_unique {α β : Type} {f : α → Option β} {l : List α} {b : β}
    (h : ∃ a ∈ l, f a = some b) (unique : ∀ a ∈ l, ∀ c, f a = some c → c = b) :
    (l.filterMap f).getLast? = some b := by
  obtain ⟨a, ha, hb⟩ := h
  have hne : l.filterMap f ≠ [] := List.ne_nil_of_mem (List.mem_filterMap.mpr ⟨a, ha, hb⟩)
  obtain ⟨c, hc, hfc⟩ := List.mem_filterMap.mp (List.getLast_mem hne)
  rw [List.getLast?_eq_some_getLast hne, unique c hc _ hfc]

namespace Uplink

/-- Units in which no two say different things of one kind, and no version mask is set. -/
structure Agreeing (s : Subscription) (f : Features) (us : List (Reading Item)) : Prop where
  granted : ∀ n ∈ Notice.ofUnits us, ∀ g, n.grant? = some g → g = s
  featured : ∀ n ∈ Notice.ofUnits us, ∀ g, n.features? = some g → g = f
  unmasked : ∀ n ∈ Notice.ofUnits us, n.mask? = none

private theorem follow_of_agreeing {u : Uplink} (hp : u.Pending) (ha : u.answered = .nothing)
    {us : List (Reading Item)} (hc : u.Completes us) {s : Subscription} {f : Features}
    (agree : Agreeing s f us) :
    (u.follow us).result = .got () ∧
      (u.follow us).uplink = { u with
        sessionId := s.sessionId
        width := s.width
        features := f
        answered := ⟨true, true, true, true⟩
        phase := .authorized } := by
  -- reading may stop before the last unit, at the answer that was missing
  have htake : u.Completes (us.take us.length) := by rwa [List.take_length]
  obtain ⟨hr, hphase⟩ := follow_of_completes hp htake
  obtain ⟨k, hk, hu⟩ := completes_of_follow hp hr
  refine ⟨hr, ?_⟩
  have sub (n : Notice) (hn : n ∈ Notice.ofUnits (us.take k)) : n ∈ Notice.ofUnits us := by
    obtain ⟨item, hi, h⟩ := Notice.mem_ofUnits.mp hn
    exact Notice.mem_ofUnits.mpr ⟨item, List.mem_of_mem_take hi, h⟩
  have said (e : Exchange) : ∃ n ∈ Notice.ofUnits (us.take k), n.answer? = some e := by
    obtain ⟨x, hx, he⟩ := ((completes_iff_of_nothing ha _).mp hk).2 e
    obtain ⟨item, n, rfl, hn⟩ := exists_notice (hk.sound x hx)
    exact ⟨n, Notice.mem_ofUnits.mpr ⟨item, hx, hn⟩, (answers_iff hn e).mp he⟩
  have hgrant : ((Notice.ofUnits (us.take k)).filterMap Notice.grant?).getLast? = some s := by
    obtain ⟨n, hn, he⟩ := said .subscribe
    obtain ⟨g, rfl⟩ := Notice.answer?_eq_subscribe he
    have hg := agree.granted _ (sub _ hn) g rfl
    exact getLast?_filterMap_of_unique ⟨_, hn, congrArg some hg⟩
      fun m hm => agree.granted m (sub m hm)
  have hfeatures :
      ((Notice.ofUnits (us.take k)).filterMap Notice.features?).getLast? = some f := by
    obtain ⟨n, hn, he⟩ := said .features
    obtain ⟨g, rfl⟩ := Notice.answer?_eq_features he
    have hg := agree.featured _ (sub _ hn) g rfl
    exact getLast?_filterMap_of_unique ⟨_, hn, congrArg some hg⟩
      fun m hm => agree.featured m (sub m hm)
  have hmask : (Notice.ofUnits (us.take k)).filterMap Notice.mask? = [] :=
    List.filterMap_eq_nil_iff.mpr fun m hm => agree.unmasked m (sub m hm)
  have hanswered : (u.heedAll (Notice.ofUnits (us.take k))).answered =
      ⟨true, true, true, true⟩ := by
    apply Answered.ext_has
    intro e
    rw [(heedAll_answered u _ e).mpr (Or.inr (said e))]
    cases e <;> rfl
  rw [hu] at hphase ⊢
  rw [heedAll_eq, hgrant, hfeatures, hmask, hanswered, hphase]
  rfl

private theorem handshake_of_agreeing {u : Uplink} (ha : u.answered = .nothing) {link : Link}
    (written : (u.attachLink link).writeSetup.result = .ok ()) {front back : List (Reading Item)}
    (hunits : Item.units link.inbound = front ++ back)
    (hc : (u.attachLink link).unlinked.Completes front) {s : Subscription} {f : Features}
    (agree : Agreeing s f front) :
    (u.handshake link).uplink.withoutUnread = { u.attachLink link with
      carrier := .live (link.behind u.setupLines).withoutUnread
      settled := true
      sessionId := s.sessionId
      width := s.width
      features := f
      answered := ⟨true, true, true, true⟩
      phase := .authorized } := by
  have hp := pending_attachLink u link
  have htake : front.take front.length = front := List.take_length
  have hfollow : (u.attachLink link).unlinked.follow (Item.units link.inbound) =
      (u.attachLink link).unlinked.follow front := by
    refine follow_congr hp (Or.inr (htake.symm ▸ hc)) ?_
    rw [hunits, List.take_left, htake]
  obtain ⟨hr, hu⟩ := follow_of_agreeing hp ha hc agree
  rw [handshake_of_written written, hfollow]
  dsimp only
  rw [if_pos hr, hu]
  rfl

private theorem completes_of_mixed {u : Uplink} (ha : u.answered = .nothing)
    {sub conf caps auth : Packet} {noise sent : List Packet} {s : Subscription} {f : Features}
    (hsub : Notice.ofItem sub.item = .ok (.granted s))
    (hconf : Notice.ofItem conf.item = .ok .configured)
    (hcaps : Notice.ofItem caps.item = .ok (.featured f))
    (hauth : Notice.ofItem auth.item = .ok .authorized)
    (quiet : ∀ p ∈ noise, Noise p.item)
    (mixed : sent.Perm ([sub, conf, caps, auth] ++ noise)) :
    u.Completes (sent.map fun p => .got p.item) ∧
      Agreeing s f (sent.map fun p => .got p.item) := by
  have said {p : Packet} (h : p ∈ sent) : ∃ n, Notice.ofItem p.item = .ok n ∧
      n ∈ [.granted s, .configured, .featured f, .authorized, .idle, .strange] := by
    rcases List.mem_append.mp (mixed.mem_iff.mp h) with h | h
    · simp only [List.mem_cons, List.not_mem_nil, or_false] at h
      rcases h with rfl | rfl | rfl | rfl
      · exact ⟨_, hsub, by simp⟩
      · exact ⟨_, hconf, by simp⟩
      · exact ⟨_, hcaps, by simp⟩
      · exact ⟨_, hauth, by simp⟩
    · rcases (quiet p h).notice with hn | hn
      · exact ⟨_, hn, by simp⟩
      · exact ⟨_, hn, by simp⟩
  have answers {p : Packet} (h : p ∈ [sub, conf, caps, auth]) {n : Notice}
      (hn : Notice.ofItem p.item = .ok n) {e : Exchange} (he : n.answer? = some e) :
      ∃ x ∈ sent.map fun p => Reading.got p.item, Answers e x :=
    ⟨_, List.mem_map_of_mem (mixed.mem_iff.mpr (List.mem_append_left _ h)),
      (answers_iff hn e).mpr he⟩
  have listed {n : Notice} (h : n ∈ Notice.ofUnits (sent.map fun p => .got p.item)) :
      n ∈ [.granted s, .configured, .featured f, .authorized, .idle, .strange] := by
    obtain ⟨item, hi, hn⟩ := Notice.mem_ofUnits.mp h
    obtain ⟨p, hp, he⟩ := List.mem_map.mp hi
    cases he
    obtain ⟨m, hm, hmem⟩ := said hp
    cases hn.symm.trans hm
    exact hmem
  constructor
  · apply (completes_iff_of_nothing ha _).mpr
    constructor
    · intro x hx
      obtain ⟨p, hp, rfl⟩ := List.mem_map.mp hx
      obtain ⟨n, hn, -⟩ := said hp
      exact not_fatal_of_ok hn
    · intro e
      cases e with
      | subscribe => exact answers (by simp) hsub rfl
      | configure => exact answers (by simp) hconf rfl
      | features => exact answers (by simp) hcaps rfl
      | authorize => exact answers (by simp) hauth rfl
  · constructor
    · intro n hn g hg
      have hl := listed hn
      obtain rfl := Notice.grant?_eq_some.mp hg
      simpa using hl
    · intro n hn g hg
      have hl := listed hn
      obtain rfl := Notice.features?_eq_some.mp hg
      simpa using hl
    · intro n hn
      have hl := listed hn
      simp only [List.mem_cons, List.not_mem_nil, or_false] at hl
      rcases hl with rfl | rfl | rfl | rfl | rfl | rfl <;> rfl

private theorem handshake_of_mixed {u : Uplink} (ha : u.answered = .nothing) {link : Link}
    (written : (u.attachLink link).writeSetup.result = .ok ())
    {sub conf caps auth : Packet} {noise sent : List Packet} {s : Subscription} {f : Features}
    (hsub : Notice.ofItem sub.item = .ok (.granted s))
    (hconf : Notice.ofItem conf.item = .ok .configured)
    (hcaps : Notice.ofItem caps.item = .ok (.featured f))
    (hauth : Notice.ofItem auth.item = .ok .authorized)
    (quiet : ∀ p ∈ noise, Noise p.item)
    (mixed : sent.Perm ([sub, conf, caps, auth] ++ noise))
    {inbound : Inbound} {rest : List UInt8}
    (h : inbound.remaining = sent.flatMap Packet.bytes ++ rest) :
    (u.handshake { link with inbound }).uplink.withoutUnread = { u.attachLink link with
      carrier := .live (link.behind u.setupLines).withoutUnread
      settled := true
      sessionId := s.sessionId
      width := s.width
      features := f
      answered := ⟨true, true, true, true⟩
      phase := .authorized } := by
  have hcursor : inbound.cursor = ⟨sent.flatMap Packet.bytes ++ rest, inbound.ending⟩ := by
    rw [Inbound.cursor, h]
  obtain ⟨t, -, ht⟩ := Item.units_of_packets sent hcursor
  obtain ⟨hc, agree⟩ := completes_of_mixed (u := (u.attachLink { link with inbound }).unlinked)
    ha hsub hconf hcaps hauth quiet mixed
  exact handshake_of_agreeing ha ((writeSetup_inbound u link inbound).trans written) ht hc agree

/-- Four valid answers, in any order and among any packets that mean nothing, authorize a new
uplink as soon as its requests are written, and leave it as the four alone in their order do:
session, width, features, version mask, what is agreed and what is written included. -/
theorem order_irrelevant {settings : Settings} {account : String} {index : Nat} {u : Uplink}
    (created : create settings account index = .ok u) (link : Link)
    {sub conf caps auth : Packet} {noise sent : List Packet}
    (subscribes : Answers .subscribe (.got sub.item)) (granted : ¬ Fatal (.got sub.item))
    (configures : Answers .configure (.got conf.item))
    (features : Answers .features (.got caps.item))
    (authorizes : Answers .authorize (.got auth.item)) (allowed : ¬ Fatal (.got auth.item))
    (quiet : ∀ p ∈ noise, Noise p.item)
    (mixed : sent.Perm ([sub, conf, caps, auth] ++ noise))
    {stream plain : Inbound} {rest rest' : List UInt8}
    (hstream : stream.remaining = sent.flatMap Packet.bytes ++ rest)
    (hplain : plain.remaining = [sub, conf, caps, auth].flatMap Packet.bytes ++ rest') :
    ((u.handshake { link with inbound := stream }).uplink.phase = .authorized ↔
      (u.attachLink link).writeSetup.result = .ok ()) ∧
    (u.handshake { link with inbound := stream }).uplink.withoutUnread =
      (u.handshake { link with inbound := plain }).uplink.withoutUnread := by
  by_cases written : (u.attachLink link).writeSetup.result = .ok ()
  · obtain ⟨s, hsub⟩ := granted_of_answers subscribes granted
    obtain ⟨_, _, hconf⟩ := ofItem_of_answers configures
    obtain ⟨result, _, hcaps⟩ := ofItem_of_answers features
    have hauth := authorized_of_answers authorizes allowed
    have ha : u.answered = .nothing := create_answered created
    have hs := handshake_of_mixed ha written hsub hconf hcaps hauth quiet mixed hstream
    have hp := handshake_of_mixed ha written hsub hconf hcaps hauth (List.forall_mem_nil _)
      (List.Perm.refl _) hplain
    refine ⟨?_, hs.trans hp.symm⟩
    rw [← withoutUnread_phase, hs]
    exact ⟨fun _ => written, fun _ => rfl⟩
  · -- nothing is read over a link that does not take the requests
    refine ⟨?_, (handshake_congr_of_refused written stream).trans
      (handshake_congr_of_refused written plain).symm⟩
    rw [handshake_phase, writeSetup_inbound]
    exact ⟨And.left, fun h => absurd h written⟩

/-- Packets of each kind that means nothing. The body of the frame looks like a line. -/
def sampleNoise : List Packet := [
  .frame ⟨5, "\x7b\"id\":\"auth\",\"result\":false\x7d\n".toUTF8.toList, by decide +kernel⟩,
  .line "not a message".toUTF8.toList (by decide +kernel) (by decide +kernel),
  .line "\x7b\"method\":\"mining.notify\",\"params\":[]\x7d".toUTF8.toList
    (by decide +kernel) (by decide +kernel),
  .line "\x7b\"result\":true\x7d".toUTF8.toList (by decide +kernel) (by decide +kernel)]

private theorem noise_of_sampleNoise : ∀ p ∈ sampleNoise, Noise p.item := by
  intro p hp
  simp only [sampleNoise, List.mem_cons, List.not_mem_nil, or_false] at hp
  rcases hp with rfl | rfl | rfl | rfl
  · exact Noise.frame _
  · have hm : Message.ofLine ("not a message".toUTF8.toList ++ [Inbound.lineEnd]) =
        .error .malformed := by
      decide +kernel
    exact Noise.garbled hm
  · have hm : Message.ofLine
        ("\x7b\"method\":\"mining.notify\",\"params\":[]\x7d".toUTF8.toList ++
          [Inbound.lineEnd]) = .ok (.request none "mining.notify" (.array [])) := by
      decide +kernel
    exact Noise.request hm (by decide)
  · have hm : Message.ofLine ("\x7b\"result\":true\x7d".toUTF8.toList ++ [Inbound.lineEnd]) =
        .ok (.response none (some (.bool true)) none) := by
      decide +kernel
    refine Noise.stray hm ?_
    intro e h
    cases h

def sampleMixed : List Packet :=
  sampleNoise.take 2 ++ samplePackets.reverse ++ sampleNoise.drop 2

theorem order_irrelevant_of_sampleMixed :
    ∃ u, create sampleSettings "account" 0 = .ok u ∧
      (∀ p ∈ sampleNoise, Noise p.item) ∧
      sampleMixed.Perm (samplePackets ++ sampleNoise) ∧
      (u.handshake (sampleLink sampleMixed)).uplink.phase = .authorized ∧
      (u.handshake (sampleLink sampleMixed)).uplink.withoutUnread =
        (u.handshake (sampleLink samplePackets)).uplink.withoutUnread := by
  obtain ⟨u, created⟩ : ∃ u, create sampleSettings "account" 0 = .ok u := ⟨_, rfl⟩
  have written : (u.attachLink (sampleLink [])).writeSetup.result = .ok () :=
    (writeSetup_attachLink u _).1.trans (Outbound.writeLines_of_unlimited rfl _)
  have hsub : Notice.ofItem sampleSubscribe.item = .ok (.granted ⟨0x0a0b0c0d, 8⟩) := by
    decide +kernel
  have hconf : Notice.ofItem sampleConfigure.item = .ok .configured := by
    decide +kernel
  have hcaps : Notice.ofItem sampleFeatures.item = .ok (.featured .none) := by
    decide +kernel
  have hauth : Notice.ofItem sampleAuthorize.item = .ok .authorized := by
    decide +kernel
  have mixed : sampleMixed.Perm (samplePackets ++ sampleNoise) := by
    decide +kernel
  have single (bytes : List UInt8) :
      (Inbound.ofChunks [bytes] .closed).remaining = bytes ++ [] := by
    simp [Inbound.ofChunks, Inbound.remaining]
  obtain ⟨hphase, hsame⟩ := order_irrelevant created (sampleLink [])
    ((answers_iff hsub _).mpr rfl) (not_fatal_of_ok hsub) ((answers_iff hconf _).mpr rfl)
    ((answers_iff hcaps _).mpr rfl) ((answers_iff hauth _).mpr rfl) (not_fatal_of_ok hauth)
    noise_of_sampleNoise mixed (single _) (single _)
  exact ⟨u, created, noise_of_sampleNoise, mixed, hphase.mpr written, hsame⟩

end Uplink

end PoolUplink
