import Mathlib.Algebra.GroupWithZero.Nat
import MrubyMqtt.ExchangeSafety

/-!
# What a reconnect makes good

After a reconnect everything that is outstanding is repeated. If no packet is lost from then on, the
two ends come to rest after a bounded number of packets (`weight`), in whatever order they read
them, and then every message has been processed. What is still outstanding is what was stuck.

For QoS 1 this takes more care than for QoS 2: a PUBACK says nothing but the message id, so that one
which is still under way when its id is used again would end the wrong exchange (`Fresh`).
-/

namespace Exchange

/-! ### Nothing is acknowledged that was not processed -/

/-- A PUBACK under way, and a PUBLISH that will be answered by one, are about the message that is
outstanding. -/
def Slot.Acked (k : ℕ) (processed : List ℕ) (sl : Slot) : Prop :=
  ∀ m, sl.out = some m → m.qos = 1 →
    (∀ dup n, .publish k 1 dup n ∈ sl.forward → n = m.publication) ∧
      (.puback k ∈ sl.backward → m.publication ∈ processed)

namespace Slot

variable {k : ℕ} {issued : List (ℕ × ℕ)} {processed : List ℕ} {sl sl' : Slot}

theorem Acked.mono (h : Acked k processed sl) (more : List ℕ) : Acked k (processed ++ more) sl :=
  fun m hm hq ↦ ⟨(h m hm hq).1, fun hb ↦ List.mem_append_left _ ((h m hm hq).2 hb)⟩

theorem Acked.loses (h : Acked k processed sl) (hl : Loses sl sl') : Acked k processed sl' := by
  intro m hm hq
  obtain ⟨hpublish, hpuback⟩ := h m (hl.out ▸ hm) hq
  exact ⟨fun dup n hp ↦ hpublish dup n (hl.forward.mem hp),
    fun hb ↦ hpuback (hl.backward.mem hb)⟩

theorem Acked.retry {out : Option OutMessage} {forward : List Forward} {stored : Option ℕ}
    {backward : List Backward} (h : Acked k processed ⟨out, forward, stored, backward⟩)
    {more : List Forward} (hmore : ∀ p ∈ more, ∃ m, out = some m ∧ p ∈ State.retryPackets m) :
    Acked k processed ⟨out, forward ++ more, stored, backward⟩ := by
  intro m hm hq
  obtain ⟨hpublish, hpuback⟩ := h m hm hq
  refine ⟨fun dup n hp ↦ ?_, hpuback⟩
  rcases List.mem_append.1 hp with hp | hp
  · exact hpublish dup n hp
  · obtain ⟨m', hm', hmem⟩ := hmore _ hp
    obtain rfl : m = m' := Option.some.inj (hm.symm.trans hm')
    exact (Forward.publish.inj (mem_retryPackets_one hq hmem)).2.2.2

/-- What the handler of a packet keeps, and that it ends no exchange too early. -/
theorem Acked.handled (hs : Sound k issued processed sl) (h : Acked k processed sl)
    {n? c? : Option ℕ} (hh : Handled k sl n? c? sl') :
    Acked k (processed ++ n?.toList) sl' ∧ ∀ n, c? = some n → n ∈ processed := by
  cases hh with
  | publishOne out dup n forward stored backward =>
    refine ⟨fun m hm hq ↦ ?_, nofun⟩
    obtain ⟨hpublish, -⟩ := h m hm hq
    refine ⟨fun dup' n' hp ↦ hpublish dup' n' (List.mem_cons_of_mem _ hp), fun _ ↦ ?_⟩
    rw [← hpublish dup n (List.mem_cons_self ..)]
    simp
  | publishTwo out dup n forward stored backward =>
    refine ⟨fun m hm hq ↦ ?_, nofun⟩
    obtain ⟨hpublish, hpuback⟩ := h m hm hq
    refine ⟨fun dup' n' hp ↦ hpublish dup' n' (List.mem_cons_of_mem _ hp), fun hb ↦ ?_⟩
    simpa using hpuback (by simpa using hb)
  | pubrel out dup n forward backward =>
    refine ⟨fun m hm hq ↦ ?_, nofun⟩
    obtain ⟨hpublish, hpuback⟩ := h m hm hq
    refine ⟨fun dup' n' hp ↦ hpublish dup' n' (List.mem_cons_of_mem _ hp), fun hb ↦ ?_⟩
    exact List.mem_append_left _ (hpuback (by simpa using hb))
  | ignored out forward backward =>
    exact ⟨(h.loses (Loses.forward_tail ..)).mono _, nofun⟩
  | puback m hq forward stored backward =>
    refine ⟨nofun, ?_⟩
    rintro _ ⟨⟩
    exact (h m rfl hq).2 (List.mem_cons_self ..)
  | pubrec n forward stored backward =>
    refine ⟨?_, nofun⟩
    rintro _ ⟨⟩ hq
    cases hq
  | pubcomp n forward stored backward =>
    refine ⟨nofun, ?_⟩
    rintro _ ⟨⟩
    exact hs.pubcomp.2
  | unexpected out forward stored b backward hb =>
    exact ⟨(h.loses (Loses.backward_tail ..)).mono _, nofun⟩

end Slot

namespace State

/-- A message is sent only under an id that is not outstanding, and for QoS 1 only under one that
nothing under way bears. -/
def Fresh (s : State) : Event → Prop
  | .publish msgid qos => s.outbound msgid = none ∧
      (qos = 1 → (∀ p ∈ s.toReceiver, p.msgid ≠ msgid) ∧ ∀ b ∈ s.toSender, b.msgid ≠ msgid)
  | _ => True

instance (s : State) : (e : Event) → Decidable (s.Fresh e)
  | .publish _ _ => inferInstanceAs (Decidable (_ ∧ (_ → _ ∧ _)))
  | .retries _ | .receive | .acknowledge | .loseForward | .loseBackward | .reconnect _ _ =>
    .isTrue trivial

theorem Fresh.unused {s : State} {e : Event} (h : s.Fresh e) : s.Unused e := by
  cases e with
  | publish msgid qos => exact h.1
  | _ => trivial

/-- The invariant for QoS 1 and 2 together. -/
structure Honest (s : State) : Prop where
  /-- The invariant for QoS 2. -/
  sound : s.Sound
  /-- The slots are sound for QoS 1. -/
  acked : ∀ k, (s.slot k).Acked k s.processed
  /-- An exchange that has come to its end is about a message that is processed. -/
  completed : ∀ n ∈ s.completed, n ∈ s.processed

namespace Honest

variable {s s' : State}

/-- **Every step** keeps it, if messages are sent under fresh ids. -/
theorem step {e : Event} (hs : s.Honest) (hfresh : s.Fresh e) (h : machine.step s e = some s') :
    s'.Honest := by
  have hsound := hs.sound.step hfresh.unused h
  have hnamed : ∀ k, (s.slot k).Named k s.issued := fun k ↦ (hs.sound.slot k).named
  obtain @⟨msgid, qos, hqos⟩ | @⟨e, -, s', k, n?, c?, hh⟩ |
    ⟨-, forward, backward, hf, hb, count⟩ | count := step_cases hs.sound.tidy hnamed hs.sound.qos h
  · refine ⟨hsound, fun k ↦ ?_, hs.completed⟩
    by_cases hk : k = msgid
    · subst hk
      rw [slot_startPublish_self qos hfresh.1]
      rintro m ⟨⟩ hq
      obtain ⟨hforward, hbackward⟩ := hfresh.2 hq
      constructor
      · intro dup n hp
        rcases List.mem_append.1 hp with hp | hp
        · exact absurd rfl (hforward _ (List.mem_filter.1 hp).1)
        · exact (Forward.publish.inj (List.mem_singleton.1 hp)).2.2.2
      · exact fun hb ↦ absurd rfl (hbackward _ (List.mem_filter.1 hb).1)
    · rw [slot_startPublish_of_ne qos hk]
      exact hs.acked k
  · obtain ⟨hacked, hcompleted⟩ := (hs.acked k).handled (hs.sound.slot k) hh.handled
    refine ⟨hsound, fun j ↦ ?_, fun n hn ↦ ?_⟩
    · rw [hh.processed]
      by_cases hj : j = k
      · exact hj ▸ hacked
      · rw [hh.other j hj]
        exact (hs.acked j).mono _
    · rw [hh.completed] at hn
      rw [hh.processed]
      rcases List.mem_append.1 hn with hn | hn
      · exact List.mem_append_left _ (hs.completed n hn)
      · exact List.mem_append_left _ (hcompleted n (Option.mem_toList.1 hn))
  · refine ⟨hsound, fun k ↦ ?_, hs.completed⟩
    have htidy : Tidy { s with toReceiver := forward, toSender := backward } :=
      ⟨hs.sound.tidy.outbound, hs.sound.tidy.inbound⟩
    rw [slot_retries]
    exact ((hs.acked k).loses (loses_slot hf hb k)).retry fun p hp ↦ mem_retries htidy hp
  · exact ⟨hsound, fun _ ↦ nofun, hs.completed⟩

theorem run {es : List Event} (hfresh : machine.EachStep (fun s e _ ↦ s.Fresh e) start es)
    (hrun : machine.run start es = some s) : s.Honest := by
  have hstart : start.Honest := ⟨Sound.start, fun _ ↦ nofun, nofun⟩
  have halways : machine.Always Honest start es :=
    machine.always_of_guarded (fun _ _ _ hs h hf ↦ hs.step hf h) (fun _ hs ↦ hs) hstart hfresh
  exact halways.last machine hrun

end Honest

end State

/-! ### Coming to rest -/

/-- How many packets a packet can lead to, itself included. -/
def Forward.weight : Forward → ℕ
  | .publish _ qos _ _ => if qos = 2 then 4 else 2
  | .pubrel _ _ => 2

/-- How many packets an answer can lead to, itself included. -/
def Backward.weight : Backward → ℕ
  | .puback _ => 1
  | .pubrec _ => 3
  | .pubcomp _ => 1

namespace State

/-- How many packets can still be read, if nothing more is sent or repeated. -/
def weight (s : State) : ℕ :=
  (s.toReceiver.map Forward.weight).sum + (s.toSender.map Backward.weight).sum

variable {s s' : State}

theorem weight_handleForward (p : Forward) : (s.handleForward p).weight < s.weight + p.weight := by
  cases p with
  | publish msgid qos dup n =>
    rw [handleForward, handlePublishes]
    split_ifs with h1 h2 <;>
      simp [weight, processPublication, Forward.weight, Backward.weight, *] <;> omega
  | pubrel msgid dup =>
    rw [handleForward, handlePubrels]
    split
    · split_ifs
      · simp [weight, Forward.weight, Backward.weight]
        omega
      · simp [Forward.weight]
    · simp [weight, processPublication, Forward.weight, Backward.weight]
      omega

theorem weight_handleBackward (b : Backward) :
    (s.handleBackward b).weight < s.weight + b.weight := by
  cases b with
  | puback msgid =>
    rw [handleBackward, handlePubacks]
    split
    · simp [Backward.weight]
    · split_ifs <;> simp [weight, Backward.weight]
  | pubrec msgid =>
    rw [handleBackward, handlePubrecs]
    split
    · simp [Backward.weight]
    · split_ifs
      · simp [weight, Backward.weight]
      · simp [weight, Backward.weight]
      · simp [weight, Forward.weight, Backward.weight]
        omega
  | pubcomp msgid =>
    rw [handleBackward, handlePubcomps]
    split
    · simp [Backward.weight]
    · split_ifs <;> simp [weight, Backward.weight]

/-- Every packet that is read makes the rest lighter. -/
theorem weight_step {e : Event} (he : Reads e) (h : machine.step s e = some s') :
    s'.weight < s.weight := by
  obtain rfl | rfl := he
  · rcases hp : s.toReceiver with - | ⟨p, rest⟩
    · simp [machine, State.step, hp] at h
    · obtain rfl : State.handleForward { s with toReceiver := rest } p = s' := by
        simpa [machine, State.step, hp] using h
      refine Nat.lt_of_lt_of_le (weight_handleForward p) ?_
      simp [weight, hp]
      omega
  · rcases hb : s.toSender with - | ⟨b, rest⟩
    · simp [machine, State.step, hb] at h
    · obtain rfl : State.handleBackward { s with toSender := rest } b = s' := by
        simpa [machine, State.step, hb] using h
      refine Nat.lt_of_lt_of_le (weight_handleBackward b) ?_
      simp [weight, hb]
      omega

/-- The two ends read no more packets than that. -/
theorem length_le_weight {fs : List Event} (hfs : ∀ e ∈ fs, Reads e)
    (hrun : machine.run s fs = some s') : fs.length ≤ s.weight := by
  induction fs generalizing s with
  | nil => exact Nat.zero_le _
  | cons e fs ih =>
    obtain ⟨t, ht, hrest⟩ := machine.run_cons_eq_some_iff.1 hrun
    have hlt := weight_step (hfs e (List.mem_cons_self ..)) ht
    have hle := ih (fun e he ↦ hfs e (List.mem_cons_of_mem _ he)) hrest
    rw [List.length_cons]
    omega

/-- When nothing more can be read, nothing is under way. -/
theorem quiet_of_no_read (h : ∀ e, Reads e → machine.step s e = none) :
    s.toReceiver = [] ∧ s.toSender = [] := by
  constructor
  · rcases hp : s.toReceiver with - | ⟨p, rest⟩
    · rfl
    · have hnone := h .receive (.inl rfl)
      simp [machine, State.step, hp] at hnone
  · rcases hb : s.toSender with - | ⟨b, rest⟩
    · rfl
    · have hnone := h .acknowledge (.inr rfl)
      simp [machine, State.step, hb] at hnone

end State

/-! ### What is outstanding is on its way -/

/-- The packet is what the message waits for at the receiver. -/
def Forward.Asks (stored : Option ℕ) (m : OutMessage) (p : Forward) : Prop :=
  (m.qos = 1 ∨ m.qos = 2 ∧ m.nextMessageType = .pubrec) ∧
      (∃ dup, p = .publish m.msgid m.qos dup m.publication) ∨
    m.qos = 2 ∧ m.nextMessageType = .pubcomp ∧ stored.isSome ∧ p = .pubrel m.msgid false

/-- Everything outstanding will be answered, some publications apart. -/
def Slot.Pending (old : ℕ → Prop) (sl : Slot) : Prop :=
  ∀ m, sl.out = some m → (∃ b ∈ sl.backward, b.Answers m) ∨
    (∃ p ∈ sl.forward, p.Asks sl.stored m) ∨ old m.publication

namespace Slot

variable {k : ℕ} {issued : List (ℕ × ℕ)} {processed : List ℕ} {sl sl' : Slot} {old : ℕ → Prop}

/-- A packet that asks for a message asks for it whatever is stored instead. -/
theorem asks_of_isSome {m : OutMessage} {p : Forward} {stored stored' : Option ℕ}
    (h : p.Asks stored m) (hsome : stored.isSome → stored'.isSome) : p.Asks stored' m :=
  h.imp_right fun ⟨hq, hnext, hs, hp⟩ ↦ ⟨hq, hnext, hsome hs, hp⟩

/-- **What is outstanding stays on its way**: handling a packet that a message waits for sends the
next one. -/
theorem Pending.handled (hs : Sound k issued processed sl) (h : Pending old sl)
    {n? c? : Option ℕ} (hh : Handled k sl n? c? sl') : Pending old sl' := by
  cases hh with
  | publishOne out dup n forward stored backward =>
    intro m hm
    obtain ⟨b, hb, hans⟩ | ⟨p, hp, hask⟩ | hold := h m hm
    · exact .inl ⟨b, List.mem_append_left _ hb, hans⟩
    · rcases List.mem_cons.1 hp with rfl | hp
      · obtain ⟨-, dup', he⟩ | ⟨-, -, -, he⟩ := hask
        · have hq : m.qos = 1 := (Forward.publish.inj he).2.1.symm
          exact .inl ⟨.puback k, by simp, hq⟩
        · cases he
      · exact .inr (.inl ⟨p, hp, hask⟩)
    · exact .inr (.inr hold)
  | publishTwo out dup n forward stored backward =>
    intro m hm
    obtain ⟨b, hb, hans⟩ | ⟨p, hp, hask⟩ | hold := h m hm
    · exact .inl ⟨b, List.mem_append_left _ hb, hans⟩
    · rcases List.mem_cons.1 hp with rfl | hp
      · obtain ⟨hone | htwo, dup', he⟩ | ⟨-, -, -, he⟩ := hask
        · have hq : m.qos = 2 := (Forward.publish.inj he).2.1.symm
          omega
        · exact .inl ⟨.pubrec k, by simp, htwo⟩
        · cases he
      · exact .inr (.inl ⟨p, hp, asks_of_isSome hask fun _ ↦ rfl⟩)
    · exact .inr (.inr hold)
  | pubrel out dup n forward backward =>
    intro m hm
    obtain ⟨b, hb, hans⟩ | ⟨p, hp, hask⟩ | hold := h m hm
    · exact .inl ⟨b, List.mem_append_left _ hb, hans⟩
    · obtain hpublish | ⟨hq, hnext, -, -⟩ := id hask
      · rcases List.mem_cons.1 hp with rfl | hp
        · obtain ⟨-, dup', he⟩ := hpublish
          cases he
        · exact .inr (.inl ⟨p, hp, .inl hpublish⟩)
      · exact .inl ⟨.pubcomp k, by simp, hq, hnext⟩
    · exact .inr (.inr hold)
  | ignored out forward backward =>
    intro m hm
    obtain hans | ⟨p, hp, hask⟩ | hold := h m hm
    · exact .inl hans
    · obtain hpublish | ⟨-, -, hstored, -⟩ := id hask
      · rcases List.mem_cons.1 hp with rfl | hp
        · obtain ⟨-, dup', he⟩ := hpublish
          cases he
        · exact .inr (.inl ⟨p, hp, hask⟩)
      · cases hstored
    · exact .inr (.inr hold)
  | puback m hq forward stored backward => nofun
  | pubrec n forward stored backward =>
    have hstored : stored = some n := by
      obtain hi | ⟨n', hw⟩ | ⟨n', hr⟩ | ⟨n', hd⟩ := hs.stage
      · cases hi.out _ rfl
      · have hn : n = n' := by simpa using hw.out
        exact hn ▸ hw.pubrec (List.mem_cons_self ..)
      · cases hr.out
      · cases hd.out
    rintro m ⟨⟩
    refine .inr (.inl ⟨.pubrel k false, by simp, .inr ⟨rfl, rfl, ?_, rfl⟩⟩)
    rw [hstored]
    rfl
  | pubcomp n forward stored backward => nofun
  | unexpected out forward stored b backward hb =>
    intro m hm
    obtain ⟨b', hb', hans⟩ | hask | hold := h m hm
    · rcases List.mem_cons.1 hb' with rfl | hb'
      · exact absurd hans (hb m hm)
      · exact .inl ⟨b', hb', hans⟩
    · exact .inr (.inl hask)
    · exact .inr (.inr hold)

/-- What is repeated over a new connection asks for everything that is outstanding, except for what
is released and processed. -/
theorem pending_of_retry {out : Option OutMessage} {forward : List Forward} {stored : Option ℕ}
    {backward : List Backward} (hnamed : Named k issued ⟨out, forward, stored, backward⟩)
    (hall : ∀ m, out = some m → ∀ p ∈ State.retryPackets m, p ∈ forward)
    (hold : ∀ m, out = some m → m.qos = 2 → m.nextMessageType = .pubcomp → stored = none →
      old m.publication) : Pending old ⟨out, forward, stored, backward⟩ := by
  intro m hm
  have hmem := hall m hm
  obtain hq | hq := (hnamed.out m hm).2
  · refine .inr (.inl ⟨.publish m.msgid m.qos true m.publication, hmem _ ?_,
      .inl ⟨.inl hq, _, rfl⟩⟩)
    simp [State.retryPackets, hq]
  · rcases hnext : m.nextMessageType
    · refine .inr (.inl ⟨.publish m.msgid m.qos true m.publication, hmem _ ?_,
        .inl ⟨.inr ⟨hq, hnext⟩, _, rfl⟩⟩)
      simp [State.retryPackets, hq, hnext]
    · rcases hstored : stored with - | n
      · exact .inr (.inr (hold m hm hq hnext hstored))
      · refine .inr (.inl ⟨.pubrel m.msgid false, hmem _ ?_, .inr ⟨hq, hnext, rfl, rfl⟩⟩)
        simp [State.retryPackets, hq, hnext]

/-- What is outstanding stays so until its exchange ends. -/
theorem Handled.accounted {n? c? : Option ℕ} (hh : Handled k sl n? c? sl') {m : OutMessage}
    (hm : sl.out = some m) :
    (∃ m', sl'.out = some m' ∧ m'.publication = m.publication) ∨ c? = some m.publication := by
  cases hh with
  | puback m' hq forward stored backward =>
    obtain rfl := Option.some.inj hm
    exact .inr rfl
  | pubrec n forward stored backward =>
    obtain rfl := Option.some.inj hm
    exact .inl ⟨_, rfl, rfl⟩
  | pubcomp n forward stored backward =>
    obtain rfl := Option.some.inj hm
    exact .inr rfl
  | publishOne | publishTwo | pubrel | ignored | unexpected => exact .inl ⟨m, hm, rfl⟩

end Slot

namespace State

/-- A message that is released and processed: its PUBCOMP has been sent, once and for all. -/
def Lost (s : State) (m : OutMessage) : Prop :=
  m.qos = 2 ∧ m.nextMessageType = .pubcomp ∧ s.inbound m.msgid = none

instance (s : State) (m : OutMessage) : Decidable (s.Lost m) :=
  inferInstanceAs (Decidable (_ ∧ _ ∧ _))

/-- What holds while the two ends come to rest after a reconnect in the state `s`. -/
structure Settling (s t : State) : Prop where
  /-- The invariant. -/
  honest : t.Honest
  /-- Nothing is sent meanwhile. -/
  issued : t.issued = s.issued
  /-- What is outstanding is on its way, except for what was lost. -/
  pending : ∀ k, (t.slot k).Pending fun n ↦
    ∃ m, s.outbound m.msgid = some m ∧ s.Lost m ∧ m.publication = n
  /-- What was outstanding still is, or has come to its end. -/
  accounted : ∀ k m, s.outbound k = some m →
    (∃ m', t.outbound k = some m' ∧ m'.publication = m.publication) ∨ m.publication ∈ t.completed
  /-- What was lost is stuck. -/
  stuck : ∀ m, s.outbound m.msgid = some m → s.Lost m → t.Stuck m

namespace Settling

variable {s t t' : State}

/-- It starts with the reconnect. -/
theorem reconnect (hs : s.Honest) {count : ℕ} (hcount : s.outboundMsgs.length ≤ count)
    (h : machine.step s (.reconnect false count) = some t) : s.Settling t := by
  have hhonest : t.Honest := hs.step (e := .reconnect false count) trivial h
  obtain rfl : s.disconnect.retries count = t := by simpa [machine, State.step] using h
  refine ⟨hhonest, rfl, fun k ↦ ?_, fun k m hm ↦ .inl ⟨m, hm, rfl⟩, fun m hm hlost ↦ ?_⟩
  · have hnamed := (hhonest.sound.slot k).named
    rw [slot_retries] at hnamed ⊢
    refine Slot.pending_of_retry hnamed (fun m hm p hp ↦ ?_) fun m hm hq hnext hstored ↦ ?_
    · have hmem : m ∈ s.outboundMsgs := KeyedList.mem_of_lookup hm
      have hk : m.msgid = k := KeyedList.key_of_lookup hm
      have hid : p.msgid = m.msgid := by
        rw [retryPackets] at hp
        split_ifs at hp <;> simp_all
      refine List.mem_append_right _ (List.mem_filter.2 ⟨List.mem_flatMap.2 ⟨m, ?_, hp⟩, ?_⟩)
      · show m ∈ s.outboundMsgs.take count
        rwa [List.take_of_length_le hcount]
      · simp [hid, hk]
    · have hk : m.msgid = k := KeyedList.key_of_lookup hm
      subst hk
      refine ⟨m, hm, ⟨hq, hnext, ?_⟩, rfl⟩
      exact Option.map_eq_none_iff.1 hstored
  · exact ⟨hm, hlost.1, hlost.2.1, hlost.2.2, List.not_mem_nil⟩

/-- And lasts while packets are read. -/
theorem step (ht : s.Settling t) {e : Event} (he : Reads e) (h : machine.step t e = some t') :
    s.Settling t' := by
  have hfresh : t.Fresh e := by
    obtain rfl | rfl := he <;> trivial
  have hkeeps : Keeps e := by
    obtain rfl | rfl := he <;> trivial
  have hsound := ht.honest.sound
  obtain ⟨k, n?, c?, hh⟩ : ∃ k n? c?, Handles t t' k n? c? := by
    obtain hqos | ⟨-, hh⟩ | ⟨hnot, _⟩ | count :=
      step_cases hsound.tidy (fun k ↦ (hsound.slot k).named) hsound.qos h
    · obtain he | he := he <;> cases he
    · exact ⟨_, _, _, hh⟩
    · exact absurd he hnot
    · obtain he | he := he <;> cases he
  refine ⟨ht.honest.step hfresh h, hh.issued.trans ht.issued, fun j ↦ ?_, fun j m hm ↦ ?_,
    fun m hm hlost ↦ (ht.stuck m hm hlost).step hsound hfresh.unused hkeeps h⟩
  · by_cases hj : j = k
    · subst hj
      exact (ht.pending j).handled (hsound.slot j) hh.handled
    · rw [hh.other j hj]
      exact ht.pending j
  · obtain ⟨m', hm', hpub⟩ | hc := ht.accounted j m hm
    · by_cases hj : j = k
      · subst hj
        obtain ⟨m'', hm'', hpub'⟩ | hc := hh.handled.accounted hm'
        · exact .inl ⟨m'', hm'', hpub'.trans hpub⟩
        · right
          rw [hh.completed, hc, ← hpub]
          simp
      · refine .inl ⟨m', ?_, hpub⟩
        have hslot := congrArg Slot.out (hh.other j hj)
        exact hslot.trans hm'
    · right
      rw [hh.completed]
      exact List.mem_append_left _ hc

theorem run (ht : s.Settling t) {fs : List Event} (hfs : ∀ e ∈ fs, Reads e)
    (hrun : machine.run t fs = some t') : s.Settling t' := by
  induction fs generalizing t with
  | nil =>
    obtain rfl : t = t' := Option.some.inj hrun
    exact ht
  | cons e fs ih =>
    obtain ⟨u, hu, hrest⟩ := machine.run_cons_eq_some_iff.1 hrun
    exact ih (ht.step (hfs e (List.mem_cons_self ..)) hu)
      (fun e he ↦ hfs e (List.mem_cons_of_mem _ he)) hrest

/-- At rest, only what was lost is outstanding. -/
theorem outbound_of_quiet (hs : s.Honest) (ht : s.Settling t) (hforward : t.toReceiver = [])
    (hbackward : t.toSender = []) (k : ℕ) :
    t.outbound k = (s.outbound k).filter fun m ↦ s.Lost m := by
  have hback : ∀ m, s.outbound k = some m → s.Lost m → t.outbound k = some m := by
    intro m hm hlost
    have hk : m.msgid = k := KeyedList.key_of_lookup hm
    have hstuck := ht.stuck m (hk ▸ hm) hlost
    exact hk ▸ hstuck.1
  have hforth : ∀ m', t.outbound k = some m' → ∃ m, s.outbound k = some m ∧ s.Lost m := by
    intro m' hm'
    obtain ⟨b, hb, -⟩ | ⟨p, hp, -⟩ | ⟨m, hm, hlost, hpub⟩ := ht.pending k m' hm'
    · simp [slot, hbackward] at hb
    · simp [slot, hforward] at hp
    · have hk : m.msgid = k := by
        -- The publication was sent under one id only.
        have hone := ((hs.sound.slot m.msgid).named.out m hm).1
        have htwo := ((ht.honest.sound.slot k).named.out m' hm').1
        rw [ht.issued, ← hpub, hone] at htwo
        exact (Prod.mk.inj (Option.some.inj htwo)).1
      exact ⟨m, hk ▸ hm, hlost⟩
  rcases hout : s.outbound k with - | m
  · rcases hout' : t.outbound k with - | m'
    · rfl
    · obtain ⟨m, hm, -⟩ := hforth m' hout'
      exact absurd (hout.symm.trans hm) (Option.some_ne_none m).symm
  · by_cases hlost : s.Lost m
    · rw [hback m hout hlost]
      exact (Option.filter_some_pos (by simpa using hlost)).symm
    · rcases hout' : t.outbound k with - | m'
      · rw [Option.filter_some_neg (by simpa using hlost)]
      · obtain ⟨m₁, hm₁, hlost₁⟩ := hforth m' hout'
        obtain rfl : m = m₁ := Option.some.inj (hout.symm.trans hm₁)
        exact absurd hlost₁ hlost

/-- At rest, what was outstanding has been processed. -/
theorem processed_of_quiet (hs : s.Honest) (ht : s.Settling t) (hforward : t.toReceiver = [])
    (hbackward : t.toSender = []) {k : ℕ} {m : OutMessage} (hm : s.outbound k = some m) :
    m.publication ∈ t.processed := by
  obtain ⟨m', hm', hpub⟩ | hc := ht.accounted k m hm
  · rw [ht.outbound_of_quiet hs hforward hbackward, hm] at hm'
    by_cases hlost : s.Lost m
    · have hk : m.msgid = k := KeyedList.key_of_lookup hm
      have hstuck := ht.stuck m (hk ▸ hm) hlost
      exact (hstuck.released ht.honest.sound).processed
    · rw [Option.filter_some_neg (by simpa using hlost)] at hm'
      cases hm'
  · exact ht.honest.completed _ hc

/-- At rest, the receiver stores nothing. -/
theorem inbound_of_quiet (hs : s.Honest) (ht : s.Settling t) (hforward : t.toReceiver = [])
    (hbackward : t.toSender = []) : t.inboundMsgs = [] := by
  have hnone : ∀ k, (t.slot k).stored = none := by
    intro k
    have hout := ht.outbound_of_quiet hs hforward hbackward k
    have hlost : ∀ {m' : OutMessage}, t.outbound k = some m' → s.Lost m' ∧ t.Stuck m' := by
      intro m' hm'
      rw [hout, Option.filter_eq_some_iff] at hm'
      have hl : s.Lost m' := of_decide_eq_true hm'.2
      have hk : m'.msgid = k := KeyedList.key_of_lookup hm'.1
      exact ⟨hl, ht.stuck m' (hk ▸ hm'.1) hl⟩
    obtain hi | ⟨n, hw⟩ | ⟨n, hr⟩ | ⟨n, hd⟩ := (ht.honest.sound.slot k).stage
    · exact hi.stored
    · cases (hlost hw.out).1.2.1
    · have hin := (hlost hr.out).2.2.2.2.1
      show (t.inbound k).map InMessage.publication = none
      rw [hin]
      rfl
    · exact hd.stored
  rcases hin : t.inboundMsgs with - | ⟨m, rest⟩
  · rfl
  · have hm := hnone m.msgid
    simp [slot, inbound, hin, KeyedList.lookup_cons] at hm

end Settling

/-- **A reconnect makes good what was lost**, except for a PUBCOMP. If it repeats everything and no
packet is lost afterwards, the two ends read a bounded number of packets; when they are done
everything that was outstanding has been processed, and only what was released and processed before
is still outstanding. -/
theorem reconnect_settles {es fs : List Event} {s s' t : State} {count : ℕ}
    (hfresh : machine.EachStep (fun s e _ ↦ s.Fresh e) start es)
    (hrun : machine.run start es = some s) (hcount : s.outboundMsgs.length ≤ count)
    (hreconnect : machine.step s (.reconnect false count) = some s') (hfs : ∀ e ∈ fs, Reads e)
    (hreads : machine.run s' fs = some t) :
    fs.length ≤ s'.weight ∧
      ((∀ e, Reads e → machine.step t e = none) →
        t.toReceiver = [] ∧ t.toSender = [] ∧ t.inboundMsgs = [] ∧
        (∀ m ∈ s.outboundMsgs, m.publication ∈ t.processed) ∧
        ∀ k, t.outbound k = (s.outbound k).filter fun m ↦ s.Lost m) := by
  have hs := Honest.run hfresh hrun
  have ht : s.Settling t := (Settling.reconnect hs hcount hreconnect).run hfs hreads
  refine ⟨length_le_weight hfs hreads, fun hdone ↦ ?_⟩
  obtain ⟨hforward, hbackward⟩ := quiet_of_no_read hdone
  refine ⟨hforward, hbackward, ht.inbound_of_quiet hs hforward hbackward, fun m hm ↦ ?_,
    ht.outbound_of_quiet hs hforward hbackward⟩
  have hout := (hs.sound.tidy.outbound m.msgid).lookup_of_mem hm rfl
  exact ht.processed_of_quiet hs hforward hbackward hout

/-- The PUBCOMP of one message is lost, and the PUBLISH of two others. -/
theorem reconnect_settles_three :
    ∃ s s' t, machine.run start
        [.publish 7 2, .receive, .acknowledge, .receive, .publish 8 2, .publish 9 1] = some s ∧
      machine.step s (.reconnect false 3) = some s' ∧
      machine.run s' [.receive, .receive, .receive, .acknowledge, .acknowledge, .receive,
        .acknowledge] = some t ∧
      (∀ m ∈ s.outboundMsgs, m.publication ∈ t.processed) ∧
      ∀ k, t.outbound k = (s.outbound k).filter fun m ↦ s.Lost m := by
  have hsettles : ∀ s s' t, machine.run start
        [.publish 7 2, .receive, .acknowledge, .receive, .publish 8 2, .publish 9 1] = some s →
      machine.step s (.reconnect false 3) = some s' →
      machine.run s' [.receive, .receive, .receive, .acknowledge, .acknowledge, .receive,
        .acknowledge] = some t →
      (∀ m ∈ s.outboundMsgs, m.publication ∈ t.processed) ∧
      ∀ k, t.outbound k = (s.outbound k).filter fun m ↦ s.Lost m := by
    intro s s' t hrun hreconnect hreads
    obtain rfl := Option.some.inj hrun
    obtain rfl := Option.some.inj hreconnect
    obtain rfl := Option.some.inj hreads
    have h := reconnect_settles (by decide) hrun (by decide) hreconnect (by decide) hreads
    refine (h.2 ?_).2.2.2
    rintro e (rfl | rfl) <;> rfl
  exact ⟨_, _, _, rfl, rfl, rfl, hsettles _ _ _ rfl rfl rfl⟩

end State

end Exchange
