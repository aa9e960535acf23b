import MrubyMqtt.Exchange

/-!
# One message id of the exchange

Packets and messages with different message ids do not meet, so the exchange is studied one id at a
time. The `Slot` of an id is what there is of it at both ends and in both channels. `Slot.Sound`
says which slots can come about; its heart are the four stages in which an exchange of QoS 2 can be:

* `Idle`: there is none;
* `Waiting`: the sender has had no PUBREC, and the receiver has not processed the message;
* `Releasing`: the sender has had the PUBREC, and the message is stored at the receiver;
* `Released`: the receiver has processed the message.

In each channel the order of the packets matters. While the sender waits for PUBREC no PUBREL
follows a PUBLISH, so that an old PUBREL cannot release a message that is repeated behind it; later
no PUBLISH follows a PUBREL, so that a message that has been processed is not stored again.
-/

namespace Exchange

/-- What there is of one message id. -/
structure Slot where
  /-- The outbound message. -/
  out : Option OutMessage
  /-- The packets under way to the receiver. -/
  forward : List Forward
  /-- The publication of the inbound message. -/
  stored : Option ℕ
  /-- The packets under way to the sender. -/
  backward : List Backward

namespace Slot

variable {k : ℕ} {issued : List (ℕ × ℕ)} {processed : List ℕ} {sl : Slot}

/-- The publications in a slot are messages that were sent under its id, with the quality of service
they were sent with. -/
structure Named (k : ℕ) (issued : List (ℕ × ℕ)) (sl : Slot) : Prop where
  /-- The outbound message has the id. -/
  msgid : ∀ m, sl.out = some m → m.msgid = k
  /-- It was sent. -/
  out : ∀ m, sl.out = some m → issued[m.publication]? = some (k, m.qos) ∧ (m.qos = 1 ∨ m.qos = 2)
  /-- So was what is in a PUBLISH. -/
  publish : ∀ qos dup n, .publish k qos dup n ∈ sl.forward → issued[n]? = some (k, qos)
  /-- So was what is stored. -/
  stored : ∀ n, sl.stored = some n → issued[n]? = some (k, 2)
  /-- A packet that goes forward has the id, and a PUBREL is not marked as a duplicate. -/
  forward : ∀ p ∈ sl.forward, p = .pubrel k false ∨ ∃ qos dup n, p = .publish k qos dup n
  /-- A packet that goes back has the id. -/
  backward : ∀ b ∈ sl.backward, b = .puback k ∨ b = .pubrec k ∨ b = .pubcomp k

/-- No exchange of QoS 2. -/
structure Idle (k : ℕ) (sl : Slot) : Prop where
  /-- What is outstanding is of QoS 1. -/
  out : ∀ m, sl.out = some m → m.qos = 1
  /-- Nothing is stored. -/
  stored : sl.stored = none
  /-- No PUBLISH of QoS 2 is under way. -/
  publish : ∀ dup n, .publish k 2 dup n ∉ sl.forward
  /-- Only PUBACKs are. -/
  backward : ∀ b ∈ sl.backward, b = .puback k

/-- The sender waits for PUBREC. -/
structure Waiting (k : ℕ) (processed : List ℕ) (n : ℕ) (sl : Slot) : Prop where
  /-- The message is outstanding. -/
  out : sl.out = some ⟨k, 2, .pubrec, n⟩
  /-- It is not processed. -/
  unprocessed : n ∉ processed
  /-- It may be stored, -/
  stored : sl.stored = none ∨ sl.stored = some n
  /-- and is if a PUBREC is under way. -/
  pubrec : .pubrec k ∈ sl.backward → sl.stored = some n
  /-- No PUBCOMP is under way. -/
  pubcomp : .pubcomp k ∉ sl.backward
  /-- Every PUBLISH is of the message. -/
  publish : ∀ dup n', .publish k 2 dup n' ∈ sl.forward → n' = n
  /-- If it is stored no PUBREL is under way. -/
  pubrel : sl.stored = some n → .pubrel k false ∉ sl.forward
  /-- No PUBREL follows its PUBLISH. -/
  ordered : sl.forward.Pairwise fun a b ↦ (∃ dup, a = .publish k 2 dup n) → b ≠ .pubrel k false

/-- The sender waits for PUBCOMP, and the receiver for PUBREL. -/
structure Releasing (k : ℕ) (processed : List ℕ) (n : ℕ) (sl : Slot) : Prop where
  /-- The message is outstanding. -/
  out : sl.out = some ⟨k, 2, .pubcomp, n⟩
  /-- It is not processed. -/
  unprocessed : n ∉ processed
  /-- It is stored. -/
  stored : sl.stored = some n
  /-- No PUBCOMP is under way. -/
  pubcomp : .pubcomp k ∉ sl.backward
  /-- Every PUBLISH is of the message. -/
  publish : ∀ dup n', .publish k 2 dup n' ∈ sl.forward → n' = n
  /-- None follows a PUBREL. -/
  ordered : sl.forward.Pairwise fun a b ↦ a = .pubrel k false → ∀ dup, b ≠ .publish k 2 dup n

/-- The sender waits for PUBCOMP, and the receiver is done. -/
structure Released (k : ℕ) (processed : List ℕ) (n : ℕ) (sl : Slot) : Prop where
  /-- The message is outstanding. -/
  out : sl.out = some ⟨k, 2, .pubcomp, n⟩
  /-- It is processed. -/
  processed : n ∈ processed
  /-- It is no longer stored. -/
  stored : sl.stored = none
  /-- No PUBLISH is under way. -/
  publish : ∀ dup n', .publish k 2 dup n' ∉ sl.forward
  /-- Only PUBACKs follow a PUBCOMP. -/
  ordered : sl.backward.Pairwise fun a b ↦ a = .pubcomp k → b = .puback k

/-- Where an exchange can be. -/
inductive Stage (k : ℕ) (processed : List ℕ) (sl : Slot) : Prop where
  /-- There is none. -/
  | idle (h : Idle k sl)
  /-- The PUBLISH has not been answered. -/
  | waiting (n : ℕ) (h : Waiting k processed n sl)
  /-- The PUBREC has come. -/
  | releasing (n : ℕ) (h : Releasing k processed n sl)
  /-- The message has been handed on. -/
  | released (n : ℕ) (h : Released k processed n sl)

/-- The slots that can come about. -/
structure Sound (k : ℕ) (issued : List (ℕ × ℕ)) (processed : List ℕ) (sl : Slot) : Prop where
  /-- What is there was sent under the id. -/
  named : Named k issued sl
  /-- The exchange of QoS 2 is somewhere. -/
  stage : Stage k processed sl

/-! ### Losing packets -/

/-- A slot that has lost packets. -/
structure Loses (sl sl' : Slot) : Prop where
  /-- The outbound message stays. -/
  out : sl'.out = sl.out
  /-- The inbound one stays. -/
  stored : sl'.stored = sl.stored
  /-- Packets to the receiver are lost. -/
  forward : sl'.forward.Sublist sl.forward
  /-- Packets to the sender are lost. -/
  backward : sl'.backward.Sublist sl.backward

theorem Loses.forward_tail (out : Option OutMessage) (p : Forward) (forward : List Forward)
    (stored : Option ℕ) (backward : List Backward) :
    Loses ⟨out, p :: forward, stored, backward⟩ ⟨out, forward, stored, backward⟩ :=
  ⟨rfl, rfl, List.sublist_cons_self .., List.Sublist.refl _⟩

theorem Loses.backward_tail (out : Option OutMessage) (forward : List Forward)
    (stored : Option ℕ) (b : Backward) (backward : List Backward) :
    Loses ⟨out, forward, stored, b :: backward⟩ ⟨out, forward, stored, backward⟩ :=
  ⟨rfl, rfl, List.Sublist.refl _, List.sublist_cons_self ..⟩

theorem Named.loses (h : Named k issued sl) {sl' : Slot} (hl : Loses sl sl') :
    Named k issued sl' where
  msgid m hm := h.msgid m (hl.out ▸ hm)
  out m hm := h.out m (hl.out ▸ hm)
  publish qos dup n hp := h.publish qos dup n (hl.forward.mem hp)
  stored n hn := h.stored n (hl.stored ▸ hn)
  forward p hp := h.forward p (hl.forward.mem hp)
  backward b hb := h.backward b (hl.backward.mem hb)

/-- Losing packets changes no stage. -/
theorem Stage.loses (h : Stage k processed sl) {sl' : Slot} (hl : Loses sl sl') :
    Stage k processed sl' := by
  obtain h | ⟨n, h⟩ | ⟨n, h⟩ | ⟨n, h⟩ := h
  · refine .idle ⟨fun m hm ↦ h.out m (hl.out ▸ hm), hl.stored.trans h.stored, ?_, ?_⟩
    · exact fun dup n hp ↦ h.publish dup n (hl.forward.mem hp)
    · exact fun b hb ↦ h.backward b (hl.backward.mem hb)
  · refine .waiting n ⟨hl.out.trans h.out, h.unprocessed, ?_, ?_, ?_, ?_, ?_, ?_⟩
    · rw [hl.stored]
      exact h.stored
    · exact fun hb ↦ hl.stored.trans (h.pubrec (hl.backward.mem hb))
    · exact fun hb ↦ h.pubcomp (hl.backward.mem hb)
    · exact fun dup n' hp ↦ h.publish dup n' (hl.forward.mem hp)
    · exact fun hs hp ↦ h.pubrel (hl.stored ▸ hs) (hl.forward.mem hp)
    · exact h.ordered.sublist hl.forward
  · refine .releasing n ⟨hl.out.trans h.out, h.unprocessed, hl.stored.trans h.stored, ?_, ?_, ?_⟩
    · exact fun hb ↦ h.pubcomp (hl.backward.mem hb)
    · exact fun dup n' hp ↦ h.publish dup n' (hl.forward.mem hp)
    · exact h.ordered.sublist hl.forward
  · refine .released n ⟨hl.out.trans h.out, h.processed, hl.stored.trans h.stored, ?_, ?_⟩
    · exact fun dup n' hp ↦ h.publish dup n' (hl.forward.mem hp)
    · exact h.ordered.sublist hl.backward

theorem Sound.loses (h : Sound k issued processed sl) {sl' : Slot} (hl : Loses sl sl') :
    Sound k issued processed sl' :=
  ⟨h.named.loses hl, h.stage.loses hl⟩

/-- Nothing is left after a clean session. -/
theorem Sound.empty : Sound k issued processed ⟨none, [], none, []⟩ := by
  refine ⟨⟨?_, ?_, ?_, ?_, ?_, ?_⟩, .idle ⟨?_, rfl, ?_, ?_⟩⟩ <;> simp

/-! ### What happens under other message ids -/

/-- Messages sent later change nothing. -/
theorem Sound.issue (h : Sound k issued processed sl) (p : ℕ × ℕ) :
    Sound k (issued ++ [p]) processed sl := by
  have hnamed : ∀ {n : ℕ} {q : ℕ × ℕ}, issued[n]? = some q → (issued ++ [p])[n]? = some q := by
    intro n q hn
    rw [List.getElem?_append_left (List.getElem?_eq_some_iff.1 hn).1, hn]
  refine ⟨⟨h.named.msgid, ?_, ?_, ?_, h.named.forward, h.named.backward⟩, h.stage⟩
  · exact fun m hm ↦ ⟨hnamed (h.named.out m hm).1, (h.named.out m hm).2⟩
  · exact fun qos dup n hp ↦ hnamed (h.named.publish qos dup n hp)
  · exact fun n hn ↦ hnamed (h.named.stored n hn)

/-- Nor does the processing of another message. -/
theorem Sound.process (h : Sound k issued processed sl) {n : ℕ}
    (hne : ∀ m, sl.out = some m → m.qos = 2 → m.publication ≠ n) :
    Sound k issued (processed ++ [n]) sl := by
  refine ⟨h.named, ?_⟩
  obtain hi | ⟨n', hw⟩ | ⟨n', hr⟩ | ⟨n', hd⟩ := h.stage
  · exact .idle hi
  · have hn : n' ≠ n := hne _ hw.out rfl
    exact .waiting n' { hw with unprocessed := by simp [hw.unprocessed, hn] }
  · have hn : n' ≠ n := hne _ hr.out rfl
    exact .releasing n' { hr with unprocessed := by simp [hr.unprocessed, hn] }
  · exact .released n' { hd with processed := List.mem_append_left _ hd.processed }

/-! ### The sender -/

/-- A new exchange is started where there is none. -/
theorem Sound.start {qos : ℕ} (hqos : qos = 1 ∨ qos = 2) {forward : List Forward}
    {stored : Option ℕ} {backward : List Backward} (hlt : ∀ n ∈ processed, n < issued.length)
    (h : Sound k issued processed ⟨none, forward, stored, backward⟩) :
    Sound k (issued ++ [(k, qos)]) processed
      ⟨some ⟨k, qos, .pubrec, issued.length⟩,
        forward ++ [.publish k qos false issued.length], stored, backward⟩ := by
  have hidle : Idle k ⟨none, forward, stored, backward⟩ := by
    obtain hi | ⟨n, hw⟩ | ⟨n, hr⟩ | ⟨n, hd⟩ := h.stage
    · exact hi
    · exact absurd hw.out (Option.some_ne_none _).symm
    · exact absurd hr.out (Option.some_ne_none _).symm
    · exact absurd hd.out (Option.some_ne_none _).symm
  have hnew : (issued ++ [(k, qos)])[issued.length]? = some (k, qos) := by simp
  have hn := (h.issue (k, qos)).named
  obtain ⟨hout, hstored, hpublish, hback⟩ := hidle
  dsimp only at hstored hpublish hback
  refine ⟨⟨?_, ?_, ?_, hn.stored, ?_, hn.backward⟩, ?_⟩
  · rintro m ⟨⟩
    rfl
  · rintro m ⟨⟩
    exact ⟨hnew, hqos⟩
  · intro q dup n hp
    rcases List.mem_append.1 hp with hp | hp
    · exact hn.publish q dup n hp
    · obtain ⟨-, rfl, -, rfl⟩ := Forward.publish.inj (List.mem_singleton.1 hp)
      exact hnew
  · intro p hp
    rcases List.mem_append.1 hp with hp | hp
    · exact hn.forward p hp
    · exact .inr ⟨qos, false, _, List.mem_singleton.1 hp⟩
  · rcases hqos with rfl | rfl
    · refine .idle ⟨?_, hstored, ?_, hback⟩
      · rintro m ⟨⟩
        rfl
      · simpa using hpublish
    · refine .waiting issued.length ⟨rfl, ?_, .inl hstored, ?_, ?_, ?_, ?_, ?_⟩
      · exact fun hmem ↦ absurd (hlt _ hmem) (Nat.lt_irrefl _)
      · exact fun hb ↦ absurd (hback _ hb) (by simp)
      · exact fun hb ↦ absurd (hback _ hb) (by simp)
      · intro dup n' hp
        rcases List.mem_append.1 hp with hp | hp
        · exact absurd hp (hpublish dup n')
        · simp_all
      · exact fun hs ↦ absurd (hs.symm.trans hstored) (Option.some_ne_none _)
      · refine List.pairwise_append.2 ⟨?_, List.pairwise_singleton .., ?_⟩
        · refine List.pairwise_of_forall_mem_list fun a ha b _ hab ↦ ?_
          obtain ⟨dup, rfl⟩ := hab
          exact absurd ha (hpublish dup _)
        · intro a _ b hb _
          simp_all

/-- What is repeated for a message of QoS 1. -/
theorem mem_retryPackets_one {m : OutMessage} (hq : m.qos = 1) {p : Forward}
    (hp : p ∈ State.retryPackets m) : p = .publish m.msgid 1 true m.publication := by
  simpa [State.retryPackets, hq] using hp

/-- What is repeated for a message of QoS 2 that waits for PUBREC. -/
theorem mem_retryPackets_pubrec {n : ℕ} {p : Forward}
    (hp : p ∈ State.retryPackets ⟨k, 2, .pubrec, n⟩) : p = .publish k 2 true n := by
  simpa [State.retryPackets] using hp

/-- What is repeated for one that waits for PUBCOMP. -/
theorem mem_retryPackets_pubcomp {n : ℕ} {p : Forward}
    (hp : p ∈ State.retryPackets ⟨k, 2, .pubcomp, n⟩) : p = .pubrel k false := by
  simpa [State.retryPackets] using hp

theorem Named.retry {out : Option OutMessage} {forward : List Forward} {stored : Option ℕ}
    {backward : List Backward} (h : Named k issued ⟨out, forward, stored, backward⟩)
    {more : List Forward} (hmore : ∀ p ∈ more, ∃ m, out = some m ∧ p ∈ State.retryPackets m) :
    Named k issued ⟨out, forward ++ more, stored, backward⟩ := by
  have hcases : ∀ p ∈ more, p = .pubrel k false ∨
      ∃ m, out = some m ∧ p = .publish k m.qos true m.publication := by
    intro p hp
    obtain ⟨⟨msgid, qos, next, n⟩, rfl, hmem⟩ := hmore p hp
    obtain rfl : msgid = k := h.msgid _ rfl
    obtain rfl | rfl := (h.out _ rfl).2
    · exact .inr ⟨_, rfl, mem_retryPackets_one rfl hmem⟩
    · cases next with
      | pubrec => exact .inr ⟨_, rfl, mem_retryPackets_pubrec hmem⟩
      | pubcomp => exact .inl (mem_retryPackets_pubcomp hmem)
  refine ⟨h.msgid, h.out, ?_, h.stored, ?_, h.backward⟩
  · intro q dup n hp
    rcases List.mem_append.1 hp with hp | hp
    · exact h.publish q dup n hp
    · obtain he | ⟨m, hm, he⟩ := hcases _ hp
      · cases he
      · obtain ⟨-, rfl, -, rfl⟩ := Forward.publish.inj he
        exact (h.out m hm).1
  · intro p hp
    rcases List.mem_append.1 hp with hp | hp
    · exact h.forward p hp
    · exact (hcases p hp).imp_right fun ⟨m, _, he⟩ ↦ ⟨m.qos, true, m.publication, he⟩

/-- **Repeating** what is outstanding changes no stage: a PUBLISH is repeated before the PUBREC and
a PUBREL after it. -/
theorem Sound.retry {out : Option OutMessage} {forward : List Forward} {stored : Option ℕ}
    {backward : List Backward} (h : Sound k issued processed ⟨out, forward, stored, backward⟩)
    {more : List Forward} (hmore : ∀ p ∈ more, ∃ m, out = some m ∧ p ∈ State.retryPackets m) :
    Sound k issued processed ⟨out, forward ++ more, stored, backward⟩ := by
  refine ⟨h.named.retry hmore, ?_⟩
  obtain hi | ⟨n, hw⟩ | ⟨n, hr⟩ | ⟨n, hd⟩ := h.stage
  · refine .idle { hi with publish := fun dup n hp ↦ ?_ }
    rcases List.mem_append.1 hp with hp | hp
    · exact hi.publish dup n hp
    · obtain ⟨m, hm, hmem⟩ := hmore _ hp
      cases mem_retryPackets_one (hi.out m hm) hmem
  · have hall : ∀ p ∈ more, p = .publish k 2 true n := by
      intro p hp
      obtain ⟨m, hm, hmem⟩ := hmore p hp
      obtain rfl := Option.some.inj (hw.out.symm.trans hm)
      exact mem_retryPackets_pubrec hmem
    refine .waiting n { hw with publish := ?_, pubrel := ?_, ordered := ?_ }
    · intro dup n' hp
      rcases List.mem_append.1 hp with hp | hp
      · exact hw.publish dup n' hp
      · exact (Forward.publish.inj (hall _ hp)).2.2.2
    · intro hs hp
      rcases List.mem_append.1 hp with hp | hp
      · exact hw.pubrel hs hp
      · cases hall _ hp
    · refine List.pairwise_append.2 ⟨hw.ordered, ?_, ?_⟩
      · refine List.pairwise_of_forall_mem_list fun a _ b hb _ hrel ↦ ?_
        cases (hall b hb).symm.trans hrel
      · intro a _ b hb _ hrel
        cases (hall b hb).symm.trans hrel
  · have hall : ∀ p ∈ more, p = .pubrel k false := by
      intro p hp
      obtain ⟨m, hm, hmem⟩ := hmore p hp
      obtain rfl := Option.some.inj (hr.out.symm.trans hm)
      exact mem_retryPackets_pubcomp hmem
    refine .releasing n { hr with publish := ?_, ordered := ?_ }
    · intro dup n' hp
      rcases List.mem_append.1 hp with hp | hp
      · exact hr.publish dup n' hp
      · cases hall _ hp
    · refine List.pairwise_append.2 ⟨hr.ordered, ?_, ?_⟩
      · refine List.pairwise_of_forall_mem_list fun a _ b hb _ dup hpub ↦ ?_
        cases (hall b hb).symm.trans hpub
      · intro a _ b hb _ dup hpub
        cases (hall b hb).symm.trans hpub
  · refine .released n { hd with publish := fun dup n' hp ↦ ?_ }
    rcases List.mem_append.1 hp with hp | hp
    · exact hd.publish dup n' hp
    · obtain ⟨m, hm, hmem⟩ := hmore _ hp
      obtain rfl := Option.some.inj (hd.out.symm.trans hm)
      cases mem_retryPackets_pubcomp hmem

/-- A PUBACK ends an exchange of QoS 1. -/
theorem Sound.puback {m : OutMessage} (hq : m.qos = 1) {forward : List Forward} {stored : Option ℕ}
    {backward : List Backward}
    (h : Sound k issued processed ⟨some m, forward, stored, backward⟩) :
    Sound k issued processed ⟨none, forward, stored, backward⟩ := by
  have hne : ∀ {next n}, some m ≠ some (⟨k, 2, next, n⟩ : OutMessage) := by
    rintro next n ⟨⟩
    cases hq
  refine ⟨⟨?_, ?_, h.named.publish, h.named.stored, h.named.forward, h.named.backward⟩, ?_⟩
  · rintro _ ⟨⟩
  · rintro _ ⟨⟩
  · obtain hi | ⟨n, hw⟩ | ⟨n, hr⟩ | ⟨n, hd⟩ := h.stage
    · exact .idle ⟨fun _ hm ↦ absurd hm.symm (Option.some_ne_none _), hi.stored, hi.publish,
        hi.backward⟩
    · exact absurd hw.out hne
    · exact absurd hr.out hne
    · exact absurd hd.out hne

/-- A PUBREC finds the message stored, and is answered by a PUBREL that no PUBLISH follows. -/
theorem Sound.pubrec {n : ℕ} {forward : List Forward} {stored : Option ℕ}
    {backward : List Backward}
    (h : Sound k issued processed
      ⟨some ⟨k, 2, .pubrec, n⟩, forward, stored, .pubrec k :: backward⟩) :
    Sound k issued processed
      ⟨some ⟨k, 2, .pubcomp, n⟩, forward ++ [.pubrel k false], stored, backward⟩ := by
  have hn := h.named
  refine ⟨⟨?_, ?_, ?_, hn.stored, ?_, fun b hb ↦ hn.backward b (List.mem_cons_of_mem _ hb)⟩, ?_⟩
  · rintro m ⟨⟩
    rfl
  · rintro m ⟨⟩
    exact hn.out ⟨k, 2, .pubrec, n⟩ rfl
  · intro q dup n' hp
    exact hn.publish q dup n' (by simpa using hp)
  · intro p hp
    rcases List.mem_append.1 hp with hp | hp
    · exact hn.forward p hp
    · exact .inl (List.mem_singleton.1 hp)
  · obtain hi | ⟨n', hw⟩ | ⟨n', hr⟩ | ⟨n', hd⟩ := h.stage
    · cases hi.out _ rfl
    · obtain rfl : n = n' := by simpa using hw.out
      have hstored : stored = some n := hw.pubrec (List.mem_cons_self ..)
      refine .releasing n ⟨rfl, hw.unprocessed, hstored, ?_, ?_, ?_⟩
      · exact fun hb ↦ hw.pubcomp (List.mem_cons_of_mem _ hb)
      · exact fun dup n' hp ↦ hw.publish dup n' (by simpa using hp)
      · refine List.pairwise_append.2 ⟨?_, List.pairwise_singleton .., ?_⟩
        · refine List.pairwise_of_forall_mem_list fun a ha b _ hrel ↦ ?_
          exact absurd (hrel ▸ ha) (hw.pubrel hstored)
        · intro a ha b _ hrel
          exact absurd (hrel ▸ ha) (hw.pubrel hstored)
    · cases hr.out
    · cases hd.out

/-- A PUBCOMP comes only for a message that has been processed, and no PUBREC or PUBCOMP follows
it. -/
theorem Sound.pubcomp {n : ℕ} {forward : List Forward} {stored : Option ℕ}
    {backward : List Backward}
    (h : Sound k issued processed
      ⟨some ⟨k, 2, .pubcomp, n⟩, forward, stored, .pubcomp k :: backward⟩) :
    Sound k issued processed ⟨none, forward, stored, backward⟩ ∧ n ∈ processed := by
  have hn := h.named
  obtain hi | ⟨n', hw⟩ | ⟨n', hr⟩ | ⟨n', hd⟩ := h.stage
  · cases hi.out _ rfl
  · cases hw.out
  · exact absurd (List.mem_cons_self ..) hr.pubcomp
  · obtain rfl : n = n' := by simpa using hd.out
    refine ⟨⟨⟨?_, ?_, hn.publish, hn.stored, hn.forward, ?_⟩, .idle ⟨?_, hd.stored, ?_, ?_⟩⟩,
      hd.processed⟩
    · rintro _ ⟨⟩
    · rintro _ ⟨⟩
    · exact fun b hb ↦ hn.backward b (List.mem_cons_of_mem _ hb)
    · rintro _ ⟨⟩
    · exact hd.publish
    · exact fun b hb ↦ (List.pairwise_cons.1 hd.ordered).1 b hb rfl

/-! ### The receiver -/

/-- A PUBLISH of QoS 1 is processed and acknowledged. -/
theorem Sound.publishOne {dup : Bool} {n : ℕ} {out : Option OutMessage} {forward : List Forward}
    {stored : Option ℕ} {backward : List Backward}
    (h : Sound k issued processed ⟨out, .publish k 1 dup n :: forward, stored, backward⟩) :
    Sound k issued (processed ++ [n]) ⟨out, forward, stored, backward ++ [.puback k]⟩ := by
  have hone : issued[n]? = some (k, 1) := h.named.publish 1 dup n (List.mem_cons_self ..)
  have hne : ∀ m, out = some m → m.qos = 2 → m.publication ≠ n := by
    rintro m hm hq rfl
    have htwo := (h.named.out m hm).1
    rw [hone, hq] at htwo
    simp at htwo
  have hs := (h.loses (Loses.forward_tail ..)).process hne
  have hn := hs.named
  refine ⟨⟨hn.msgid, hn.out, hn.publish, hn.stored, hn.forward, ?_⟩, ?_⟩
  · intro b hb
    rcases List.mem_append.1 hb with hb | hb
    · exact hn.backward b hb
    · exact .inl (List.mem_singleton.1 hb)
  · obtain hi | ⟨n', hw⟩ | ⟨n', hr⟩ | ⟨n', hd⟩ := hs.stage
    · refine .idle { hi with backward := fun b hb ↦ ?_ }
      rcases List.mem_append.1 hb with hb | hb
      · exact hi.backward b hb
      · exact List.mem_singleton.1 hb
    · exact .waiting n' { hw with
        pubrec := fun hb ↦ hw.pubrec (by simpa using hb)
        pubcomp := fun hb ↦ hw.pubcomp (by simpa using hb) }
    · exact .releasing n' { hr with pubcomp := fun hb ↦ hr.pubcomp (by simpa using hb) }
    · refine .released n' { hd with ordered := ?_ }
      refine List.pairwise_append.2 ⟨hd.ordered, List.pairwise_singleton .., ?_⟩
      exact fun a _ b hb _ ↦ List.mem_singleton.1 hb

/-- A PUBLISH of QoS 2 is stored, in the place of the same message if it was stored before. -/
theorem Sound.publishTwo {dup : Bool} {n : ℕ} {out : Option OutMessage} {forward : List Forward}
    {stored : Option ℕ} {backward : List Backward}
    (h : Sound k issued processed ⟨out, .publish k 2 dup n :: forward, stored, backward⟩) :
    Sound k issued processed ⟨out, forward, some n, backward ++ [.pubrec k]⟩ := by
  have hn := h.named
  have hmem : .publish k 2 dup n ∈ Forward.publish k 2 dup n :: forward := List.mem_cons_self ..
  refine ⟨⟨hn.msgid, hn.out, ?_, ?_, ?_, ?_⟩, ?_⟩
  · exact fun q dup n' hp ↦ hn.publish q dup n' (List.mem_cons_of_mem _ hp)
  · rintro n' ⟨⟩
    exact hn.publish 2 dup n hmem
  · exact fun p hp ↦ hn.forward p (List.mem_cons_of_mem _ hp)
  · intro b hb
    rcases List.mem_append.1 hb with hb | hb
    · exact hn.backward b hb
    · exact .inr (.inl (List.mem_singleton.1 hb))
  · obtain hi | ⟨n', hw⟩ | ⟨n', hr⟩ | ⟨n', hd⟩ := h.stage
    · exact absurd hmem (hi.publish dup n)
    · obtain rfl : n = n' := hw.publish dup n hmem
      have hordered := List.pairwise_cons.1 hw.ordered
      refine .waiting n ⟨hw.out, hw.unprocessed, .inr rfl, fun _ ↦ rfl, ?_, ?_, ?_, hordered.2⟩
      · exact fun hb ↦ hw.pubcomp (by simpa using hb)
      · exact fun dup n' hp ↦ hw.publish dup n' (List.mem_cons_of_mem _ hp)
      · exact fun _ hp ↦ hordered.1 _ hp ⟨dup, rfl⟩ rfl
    · obtain rfl : n = n' := hr.publish dup n hmem
      refine .releasing n ⟨hr.out, hr.unprocessed, rfl, ?_, ?_, (List.pairwise_cons.1 hr.ordered).2⟩
      · exact fun hb ↦ hr.pubcomp (by simpa using hb)
      · exact fun dup n' hp ↦ hr.publish dup n' (List.mem_cons_of_mem _ hp)
    · exact absurd hmem (hd.publish dup n)

/-- **A PUBREL releases** the stored message. It has not been processed before, and nothing that is
under way stores it again. -/
theorem Sound.pubrel {n : ℕ} {dup : Bool} {out : Option OutMessage} {forward : List Forward}
    {backward : List Backward}
    (h : Sound k issued processed ⟨out, .pubrel k dup :: forward, some n, backward⟩) :
    Sound k issued (processed ++ [n]) ⟨out, forward, none, backward ++ [.pubcomp k]⟩ ∧
      n ∉ processed := by
  have hn := h.named
  obtain rfl : dup = false := by
    have := hn.forward _ (List.mem_cons_self ..)
    simpa using this
  obtain hi | ⟨n', hw⟩ | ⟨n', hr⟩ | ⟨n', hd⟩ := h.stage
  · cases hi.stored
  · obtain hs | hs := hw.stored
    · cases hs
    · exact absurd (List.mem_cons_self ..) (hw.pubrel hs)
  · obtain rfl : n = n' := Option.some.inj hr.stored
    have hordered := List.pairwise_cons.1 hr.ordered
    refine ⟨⟨⟨hn.msgid, hn.out, ?_, ?_, ?_, ?_⟩, .released n ⟨hr.out, by simp, rfl, ?_, ?_⟩⟩,
      hr.unprocessed⟩
    · exact fun q dup n' hp ↦ hn.publish q dup n' (List.mem_cons_of_mem _ hp)
    · rintro _ ⟨⟩
    · exact fun p hp ↦ hn.forward p (List.mem_cons_of_mem _ hp)
    · intro b hb
      rcases List.mem_append.1 hb with hb | hb
      · exact hn.backward b hb
      · exact .inr (.inr (List.mem_singleton.1 hb))
    · intro dup n' hp
      obtain rfl : n' = n := hr.publish dup n' (List.mem_cons_of_mem _ hp)
      exact hordered.1 _ hp rfl dup rfl
    · refine List.pairwise_append.2 ⟨?_, List.pairwise_singleton .., ?_⟩
      · refine List.pairwise_of_forall_mem_list fun a ha b _ hcomp ↦ ?_
        exact absurd (hcomp ▸ ha) hr.pubcomp
      · intro a ha b _ hcomp
        exact absurd (hcomp ▸ ha) hr.pubcomp
  · cases hd.stored

end Slot

/-! ### Handling a packet -/

/-- The answer a message waits for. -/
def Backward.Answers (m : OutMessage) : Backward → Prop
  | .puback _ => m.qos = 1
  | .pubrec _ => m.qos = 2 ∧ m.nextMessageType = .pubrec
  | .pubcomp _ => m.qos = 2 ∧ m.nextMessageType = .pubcomp

namespace Slot

/-- What the handler of a packet does to the slot of its id, with the publication it processes and
the one whose exchange it ends. -/
inductive Handled (k : ℕ) : Slot → (processed completed : Option ℕ) → Slot → Prop
  /-- The receiver processes and acknowledges. -/
  | publishOne (out : Option OutMessage) (dup : Bool) (n : ℕ) (forward : List Forward)
      (stored : Option ℕ) (backward : List Backward) :
      Handled k ⟨out, .publish k 1 dup n :: forward, stored, backward⟩ (some n) none
        ⟨out, forward, stored, backward ++ [.puback k]⟩
  /-- The receiver stores. -/
  | publishTwo (out : Option OutMessage) (dup : Bool) (n : ℕ) (forward : List Forward)
      (stored : Option ℕ) (backward : List Backward) :
      Handled k ⟨out, .publish k 2 dup n :: forward, stored, backward⟩ none none
        ⟨out, forward, some n, backward ++ [.pubrec k]⟩
  /-- The receiver processes what it has stored. -/
  | pubrel (out : Option OutMessage) (dup : Bool) (n : ℕ) (forward : List Forward)
      (backward : List Backward) :
      Handled k ⟨out, .pubrel k dup :: forward, some n, backward⟩ (some n) none
        ⟨out, forward, none, backward ++ [.pubcomp k]⟩
  /-- Nothing is stored, and there is no answer. -/
  | ignored (out : Option OutMessage) (forward : List Forward) (backward : List Backward) :
      Handled k ⟨out, .pubrel k false :: forward, none, backward⟩ none none
        ⟨out, forward, none, backward⟩
  /-- The sender is done. -/
  | puback (m : OutMessage) (hq : m.qos = 1) (forward : List Forward) (stored : Option ℕ)
      (backward : List Backward) :
      Handled k ⟨some m, forward, stored, .puback k :: backward⟩ none (some m.publication)
        ⟨none, forward, stored, backward⟩
  /-- The sender releases. -/
  | pubrec (n : ℕ) (forward : List Forward) (stored : Option ℕ) (backward : List Backward) :
      Handled k ⟨some ⟨k, 2, .pubrec, n⟩, forward, stored, .pubrec k :: backward⟩ none none
        ⟨some ⟨k, 2, .pubcomp, n⟩, forward ++ [.pubrel k false], stored, backward⟩
  /-- The sender is done. -/
  | pubcomp (n : ℕ) (forward : List Forward) (stored : Option ℕ) (backward : List Backward) :
      Handled k ⟨some ⟨k, 2, .pubcomp, n⟩, forward, stored, .pubcomp k :: backward⟩ none (some n)
        ⟨none, forward, stored, backward⟩
  /-- The sender does not wait for this. -/
  | unexpected (out : Option OutMessage) (forward : List Forward) (stored : Option ℕ)
      (b : Backward) (backward : List Backward) (hb : ∀ m, out = some m → ¬ b.Answers m) :
      Handled k ⟨out, forward, stored, b :: backward⟩ none none ⟨out, forward, stored, backward⟩

/-- **Handling a packet** keeps a slot sound. A message of QoS 2 that is processed was not processed
before, and one whose exchange ends was. -/
theorem Sound.handled (h : Sound k issued processed sl) {n? c? : Option ℕ} {sl' : Slot}
    (hh : Handled k sl n? c? sl') :
    Sound k issued (processed ++ n?.toList) sl' ∧
      (∀ n, n? = some n → ∃ q, issued[n]? = some (k, q) ∧ (q = 2 → n ∉ processed)) ∧
      ∀ n, c? = some n → ∃ q, issued[n]? = some (k, q) ∧ (q = 2 → n ∈ processed) := by
  cases hh with
  | publishOne out dup n forward stored backward =>
    refine ⟨h.publishOne, ?_, nofun⟩
    rintro _ ⟨⟩
    exact ⟨1, h.named.publish 1 dup n (List.mem_cons_self ..), by simp⟩
  | publishTwo out dup n forward stored backward =>
    refine ⟨?_, nofun, nofun⟩
    simpa using h.publishTwo
  | pubrel out dup n forward backward =>
    refine ⟨h.pubrel.1, ?_, nofun⟩
    rintro _ ⟨⟩
    exact ⟨2, h.named.stored n rfl, fun _ ↦ h.pubrel.2⟩
  | ignored out forward backward =>
    refine ⟨?_, nofun, nofun⟩
    simpa using h.loses (Loses.forward_tail ..)
  | puback m hq forward stored backward =>
    refine ⟨?_, nofun, ?_⟩
    · simpa using (h.puback hq).loses (Loses.backward_tail ..)
    · rintro _ ⟨⟩
      exact ⟨1, hq ▸ (h.named.out m rfl).1, by simp⟩
  | pubrec n forward stored backward =>
    refine ⟨?_, nofun, nofun⟩
    simpa using h.pubrec
  | pubcomp n forward stored backward =>
    refine ⟨?_, nofun, ?_⟩
    · simpa using h.pubcomp.1
    · rintro _ ⟨⟩
      exact ⟨2, (h.named.out _ rfl).1, fun _ ↦ h.pubcomp.2⟩
  | unexpected out forward stored b backward hb =>
    refine ⟨?_, nofun, nofun⟩
    simpa using h.loses (Loses.backward_tail ..)

end Slot

end Exchange
