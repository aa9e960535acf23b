import Mathlib.Data.List.Nodup
import MrubyMqtt.Writing

/-!
# When the bytes go out in order

The exact condition under which a process writes to each socket, byte for byte, the packets it has
accepted for it, and never has two pending writes for one socket (`inOrder_iff`): no `writev` fails
while a packet is being continued, and where a packet is written in part there is no pending write
of an earlier connection with the same socket number. The callback that reports a packet as written
tells the truth under the first of the two conditions and only then (`inOrder_iff_truthful`).
-/

open Bytes

namespace Writing

namespace State

/-! ### What a step does to the bytes of a socket -/

variable {s : State} {socket : ℕ}

/-- The pending write of a socket that has one only. -/
def kept (s : State) (socket : ℕ) : Option PendingWrites :=
  KeyedList.lookup PendingWrites.socket socket s.writes.entries

theorem rest_of_not_mem (h : socket ∉ s.writePending) : s.rest socket = [] := if_neg h

theorem rest_of_mem (hsingle : s.Single) (h : socket ∈ s.writePending) {pw : PendingWrites}
    (hkept : s.kept socket = some pw) : s.rest socket = pw.iovecs.flatten.drop pw.bytes := by
  rw [rest, if_pos h, CursorList.find_eq_lookup (hsingle socket)]
  rw [kept] at hkept
  rw [hkept]

/-- What is left for a socket depends on its pending write only. -/
theorem rest_congr {s' : State} (hsingle : s.Single) (hsingle' : s'.Single)
    (hmem : socket ∈ s'.writePending ↔ socket ∈ s.writePending)
    (hkept : s'.kept socket = s.kept socket) : s'.rest socket = s.rest socket := by
  rw [rest, rest, CursorList.find_eq_lookup (hsingle socket),
    CursorList.find_eq_lookup (hsingle' socket)]
  rw [kept, kept] at hkept
  rw [hkept]
  exact if_congr hmem rfl rfl

/-- `SocketBuffer_getWrite` finds the pending write of the socket, and only moves the cursor. -/
theorem getWrite_spec (hsingle : s.Single) {pw : PendingWrites} {t : State}
    (h : s.getWrite socket = some (pw, t)) :
    ∃ writes, t = { s with writes } ∧ writes.entries = s.writes.entries ∧
      writes.AtKey PendingWrites.socket socket ∧ s.kept socket = some pw := by
  obtain ⟨writes, hseek, h⟩ := Option.bind_eq_some_iff.1 h
  obtain ⟨found, hcurrent, h⟩ := Option.bind_eq_some_iff.1 h
  obtain ⟨rfl, rfl⟩ := Prod.mk.inj (Option.some.inj h)
  obtain ⟨hentries, hat⟩ := CursorList.seek_spec hseek
  obtain ⟨a, ha, hcurrent', hkey⟩ := hat.mem
  obtain rfl : found = a := Option.some.inj (hcurrent.symm.trans hcurrent')
  exact ⟨writes, rfl, hentries, hat, (hsingle socket).lookup_of_mem (hentries ▸ ha) hkey⟩

theorem wire_put_self (bytes : Bytes) :
    (s.put socket bytes).wire socket = s.wire socket ++ bytes :=
  Function.update_self _ _ _

theorem wire_put_of_ne {other : ℕ} (h : other ≠ socket) (bytes : Bytes) :
    (s.put socket bytes).wire other = s.wire other :=
  Function.update_of_ne h _ _

theorem wire_accept (header : Header) (buffers : List Bytes) (n : ℕ) :
    (s.accept socket header buffers n).wire socket =
      s.wire socket ++ (mqttPacketSends header buffers).take n :=
  wire_put_self _

theorem stream_accept (header : Header) (buffers : List Bytes) (n : ℕ) :
    (s.accept socket header buffers n).stream socket =
      s.stream socket ++ mqttPacketSends header buffers := by
  show ((Function.update s.sent socket _ socket).map _).flatten = _
  rw [Function.update_self, List.map_append, List.flatten_append]
  simp [stream]

theorem stream_accept_of_ne {other : ℕ} (h : other ≠ socket) (header : Header)
    (buffers : List Bytes) (n : ℕ) :
    (s.accept socket header buffers n).stream other = s.stream other := by
  show ((Function.update s.sent socket _ other).map _).flatten = _
  rw [Function.update_of_ne h]
  rfl

theorem entries_keep (pw : PendingWrites) :
    (s.keep pw).writes.entries = s.writes.entries ++ [pw] :=
  CursorList.entries_append s.writes pw

theorem kept_keep (pw : PendingWrites) (other : ℕ) :
    (s.keep pw).kept other = (s.kept other).or (if pw.socket = other then some pw else none) := by
  rw [kept, entries_keep, KeyedList.lookup_append, KeyedList.lookup_cons]
  rfl

theorem entries_advance (hsingle : s.Single) (hat : s.writes.AtKey PendingWrites.socket socket)
    (n : ℕ) : (s.advance n).writes.entries = KeyedList.modify PendingWrites.socket socket
      (fun pw ↦ { pw with bytes := pw.bytes + n }) s.writes.entries :=
  CursorList.entries_modifyCurrent (hsingle socket) hat _

theorem kept_advance (hsingle : s.Single) (hat : s.writes.AtKey PendingWrites.socket socket)
    {pw : PendingWrites} (hkept : s.kept socket = some pw) (n : ℕ) :
    (s.advance n).kept socket = some { pw with bytes := pw.bytes + n } := by
  rw [kept] at hkept
  rw [kept, entries_advance hsingle hat,
    KeyedList.lookup_modify_self (by intro pw; rfl) s.writes.entries, hkept, Option.map_some]

theorem kept_advance_of_ne (hsingle : s.Single) (hat : s.writes.AtKey PendingWrites.socket socket)
    {other : ℕ} (h : other ≠ socket) (n : ℕ) : (s.advance n).kept other = s.kept other := by
  rw [kept, entries_advance hsingle hat]
  exact KeyedList.lookup_modify_of_ne h (by intro pw; rfl) s.writes.entries

theorem entries_writeComplete (hsingle : s.Single) (socket : ℕ) :
    (s.writeComplete socket).writes.entries =
      KeyedList.remove PendingWrites.socket socket s.writes.entries :=
  CursorList.entries_unlink (hsingle socket)

theorem kept_writeComplete_of_ne (hsingle : s.Single) {other : ℕ} (h : other ≠ socket) :
    (s.writeComplete socket).kept other = s.kept other := by
  rw [kept, entries_writeComplete hsingle]
  exact KeyedList.lookup_remove_of_ne h s.writes.entries

/-! ### The invariant of the pending writes -/

/-- Every socket in the list has a pending write, and only one, and every pending write is one of a
packet that is not written in full. -/
structure Tracked (s : State) : Prop where
  /-- No socket has two of them. -/
  single : s.Single
  /-- A socket is in the list once. -/
  nodup : s.writePending.Nodup
  /-- It has a pending write. -/
  kept : ∀ socket ∈ s.writePending, ∃ pw, s.kept socket = some pw
  /-- Its total is the length of its buffers. -/
  total : ∀ pw ∈ s.writes.entries, pw.total = pw.iovecs.flatten.length
  /-- Some of them is left. -/
  left : ∀ pw ∈ s.writes.entries, pw.bytes < pw.iovecs.flatten.length

theorem tracked_start : start.Tracked :=
  ⟨fun _ ↦ Nat.zero_le 1, List.nodup_nil, fun _ h ↦ absurd h List.not_mem_nil,
    fun _ h ↦ absurd h List.not_mem_nil, fun _ h ↦ absurd h List.not_mem_nil⟩

/-- The invariant is about the pending writes alone, wherever the cursor is. -/
theorem Tracked.of_same {s' : State} (h : s.Tracked)
    (hwrites : s'.writes.entries = s.writes.entries) (hpending : s'.writePending = s.writePending) :
    s'.Tracked where
  single socket := by
    rw [hwrites]
    exact h.single socket
  nodup := hpending ▸ h.nodup
  kept other hother := by
    rw [State.kept, hwrites]
    exact h.kept other (hpending ▸ hother)
  total pw hpw := h.total pw (hwrites ▸ hpw)
  left pw hpw := h.left pw (hwrites ▸ hpw)

theorem Tracked.moved (h : s.Tracked) {writes : CursorList PendingWrites}
    (hentries : writes.entries = s.writes.entries) : ({ s with writes } : State).Tracked :=
  h.of_same hentries rfl

theorem Tracked.put (h : s.Tracked) (socket : ℕ) (bytes : Bytes) : (s.put socket bytes).Tracked :=
  h.of_same rfl rfl

theorem Tracked.accept (h : s.Tracked) (socket : ℕ) (header : Header) (buffers : List Bytes)
    (n : ℕ) : (s.accept socket header buffers n).Tracked :=
  h.of_same rfl rfl

/-- A socket that is done leaves the others as they are. -/
theorem Tracked.writeComplete (h : s.Tracked) (socket : ℕ) :
    (s.writeComplete socket).Tracked where
  single other := by
    rw [entries_writeComplete h.single]
    exact (h.single other).remove
  nodup := h.nodup.erase _
  kept other hother := by
    have hne : other ≠ socket := fun heq ↦ h.nodup.not_mem_erase (heq ▸ hother)
    rw [kept_writeComplete_of_ne h.single hne]
    exact h.kept other (List.mem_of_mem_erase hother)
  total pw hpw := by
    rw [entries_writeComplete h.single] at hpw
    exact h.total pw (KeyedList.mem_of_mem_remove hpw)
  left pw hpw := by
    rw [entries_writeComplete h.single] at hpw
    exact h.left pw (KeyedList.mem_of_mem_remove hpw)

theorem Tracked.keep (h : s.Tracked) {pw : PendingWrites} (hnone : s.kept pw.socket = none)
    (hfree : pw.socket ∉ s.writePending) (htotal : pw.total = pw.iovecs.flatten.length)
    (hleft : pw.bytes < pw.iovecs.flatten.length) : (s.keep pw).Tracked where
  single other := by
    rw [entries_keep]
    refine (h.single other).append ?_
    rintro rfl
    exact hnone
  nodup := h.nodup.append (List.nodup_singleton _) (by simpa using hfree)
  kept other hother := by
    rw [kept_keep]
    rcases List.mem_append.1 hother with hother | hother
    · obtain ⟨old, hold⟩ := h.kept other hother
      exact ⟨old, by rw [hold, Option.some_or]⟩
    · obtain rfl := List.mem_singleton.1 hother
      exact ⟨pw, by rw [hnone, if_pos rfl, Option.none_or]⟩
  total old hold := by
    rw [entries_keep] at hold
    rcases List.mem_append.1 hold with hold | hold
    · exact h.total old hold
    · obtain rfl := List.mem_singleton.1 hold
      exact htotal
  left old hold := by
    rw [entries_keep] at hold
    rcases List.mem_append.1 hold with hold | hold
    · exact h.left old hold
    · obtain rfl := List.mem_singleton.1 hold
      exact hleft

theorem Tracked.advance (h : s.Tracked) (hat : s.writes.AtKey PendingWrites.socket socket)
    {pw : PendingWrites} (hkept : s.kept socket = some pw) {n : ℕ}
    (hleft : pw.bytes + n < pw.iovecs.flatten.length) : (s.advance n).Tracked where
  single other := by
    rw [entries_advance h.single hat]
    exact (h.single other).modify (by intro pw; rfl)
  nodup := h.nodup
  kept other hother := by
    rcases eq_or_ne other socket with rfl | hne
    · exact ⟨_, kept_advance h.single hat hkept n⟩
    · rw [kept_advance_of_ne h.single hat hne]
      exact h.kept other hother
  total old hold := by
    rw [entries_advance h.single hat] at hold
    rcases KeyedList.mem_modify hold with hold | ⟨first, hfirst, rfl⟩
    · exact h.total old hold
    · exact h.total first (KeyedList.mem_of_lookup hfirst)
  left old hold := by
    rw [entries_advance h.single hat] at hold
    rcases KeyedList.mem_modify hold with hold | ⟨first, hfirst, rfl⟩
    · exact h.left old hold
    · obtain rfl : pw = first := Option.some.inj (hkept.symm.trans hfirst)
      exact hleft

/-- A write that takes something of what is offered does not take more than is left. -/
theorem Tracked.bytes_add_le (h : s.Tracked) {pw : PendingWrites}
    (hkept : s.kept socket = some pw) {n : ℕ}
    (hle : n ≤ (unwrittenLoop pw.bytes 0 pw.iovecs).flatten.length) :
    pw.bytes + n ≤ pw.iovecs.flatten.length := by
  have hleft := h.left pw (KeyedList.mem_of_lookup hkept)
  have hoffered := (flatten_unwrittenLoop_front pw.bytes 0 pw.iovecs).1.length_le
  rw [Nat.sub_zero, List.length_drop] at hoffered
  omega

/-- What is left for the other sockets stays. -/
theorem Tracked.rest_keep_of_ne (h : s.Tracked) {pw : PendingWrites} (h' : (s.keep pw).Tracked)
    {other : ℕ} (hne : other ≠ pw.socket) : (s.keep pw).rest other = s.rest other := by
  refine rest_congr h.single h'.single ?_ ?_
  · show other ∈ s.writePending ++ [pw.socket] ↔ _
    simp [hne]
  · rw [kept_keep, if_neg (Ne.symm hne), Option.or_none]

theorem Tracked.rest_advance_of_ne (h : s.Tracked)
    (hat : s.writes.AtKey PendingWrites.socket socket) {n : ℕ} (h' : (s.advance n).Tracked)
    {other : ℕ} (hne : other ≠ socket) : (s.advance n).rest other = s.rest other :=
  rest_congr h.single h'.single Iff.rfl (kept_advance_of_ne h.single hat hne n)

theorem Tracked.rest_writeComplete_of_ne (h : s.Tracked) {other : ℕ} (hne : other ≠ socket) :
    (s.writeComplete socket).rest other = s.rest other :=
  rest_congr h.single (h.writeComplete socket).single (List.mem_erase_of_ne hne)
    (kept_writeComplete_of_ne h.single hne)

/-- A socket that is done has nothing left. -/
theorem Tracked.rest_writeComplete (h : s.Tracked) : (s.writeComplete socket).rest socket = [] :=
  rest_of_not_mem h.nodup.not_mem_erase

/-! ### The guard -/

/-- A packet that is written in part finds no pending write of an earlier connection. -/
def Fresh (s : State) : Event → Prop
  | .sends socket header buffers answer =>
    socket ∉ s.writePending → answer ≠ .failed →
      answer.bytes < (mqttPacketSends header buffers).length →
      ∀ stale ∈ s.writes.entries, stale.socket ≠ socket
  | _ => True

/-- **The guard.** And no `writev` fails in the middle of a packet. -/
def Sound (s : State) (e : Event) (_ : State) : Prop :=
  s.Fresh e ∧ ∀ socket, e ≠ .continueWrite socket .failed

instance (s : State) (e : Event) : Decidable (s.Fresh e) :=
  match e with
  | .sends socket header buffers answer =>
    decidable_of_iff (socket ∉ s.writePending → answer ≠ .failed →
      answer.bytes < (mqttPacketSends header buffers).length →
      ∀ stale ∈ s.writes.entries, stale.socket ≠ socket) Iff.rfl
  | .continueWrite _ _ => .isTrue trivial
  | .close _ => .isTrue trivial

instance (s : State) (e : Event) (s' : State) : Decidable (Sound s e s') :=
  match e with
  | .sends socket header buffers answer =>
    decidable_of_iff (s.Fresh (.sends socket header buffers answer))
      ⟨fun h ↦ ⟨h, fun _ ↦ Event.noConfusion⟩, And.left⟩
  | .continueWrite socket answer =>
    decidable_of_iff (answer ≠ .failed)
      ⟨fun h ↦ ⟨trivial, fun _ heq ↦ h (Event.continueWrite.inj heq).2⟩,
        fun h heq ↦ h.2 socket (heq ▸ rfl)⟩
  | .close _ => .isTrue ⟨trivial, fun _ ↦ Event.noConfusion⟩

/-- Where a step has to do with one socket only, the others stay in order. -/
theorem inOrder_iff_of_others {s' : State} (h : s.InOrder) (socket : ℕ)
    (hwire : ∀ other, other ≠ socket → s'.wire other = s.wire other)
    (hrest : ∀ other, other ≠ socket → s'.rest other = s.rest other)
    (hstream : ∀ other, other ≠ socket → s'.stream other = s.stream other) :
    s'.InOrder ↔ s'.wire socket ++ s'.rest socket = s'.stream socket := by
  constructor
  · exact fun hall ↦ hall socket
  · intro hsocket other
    rcases eq_or_ne other socket with rfl | hne
    · exact hsocket
    · rw [hwire other hne, hrest other hne, hstream other hne]
      exact h other

/-- Accepting a packet for a socket that has nothing pending: what is kept must be the rest of the
packet. -/
theorem inOrder_accept {s' : State} (h : s.InOrder) (hfree : socket ∉ s.writePending)
    {header : Header} {buffers : List Bytes} {n : ℕ}
    (hwire : s'.wire = (s.accept socket header buffers n).wire)
    (hsent : s'.sent = (s.accept socket header buffers n).sent)
    (hrest : ∀ other, other ≠ socket → s'.rest other = s.rest other) :
    s'.InOrder ↔ s'.rest socket = (mqttPacketSends header buffers).drop n := by
  have hstream : ∀ other, s'.stream other = (s.accept socket header buffers n).stream other := by
    intro other
    rw [stream, stream, hsent]
  have hbefore : s.wire socket = s.stream socket := by
    have := h socket
    rwa [rest_of_not_mem hfree, List.append_nil] at this
  rw [inOrder_iff_of_others h socket (fun other hne ↦ ?_) hrest (fun other hne ↦ ?_), hwire,
    hstream, wire_accept, stream_accept, hbefore, List.append_assoc, List.append_cancel_left_eq]
  · constructor
    · intro heq
      have hsplit := List.take_append_drop n (mqttPacketSends header buffers)
      exact List.append_cancel_left (heq.trans hsplit.symm)
    · intro heq
      rw [heq, List.take_append_drop]
  · rw [hwire]
    exact wire_put_of_ne hne _
  · rw [hstream]
    exact stream_accept_of_ne hne _ _ _

/-- Continuing a packet: what is left must become less by what is written. -/
theorem inOrder_continue {s' : State} (h : s.InOrder) (socket : ℕ) (bytes : Bytes)
    (hwire : s'.wire = (s.put socket bytes).wire) (hsent : s'.sent = s.sent)
    (hrest : ∀ other, other ≠ socket → s'.rest other = s.rest other) :
    s'.InOrder ↔ bytes ++ s'.rest socket = s.rest socket := by
  have hstream : ∀ other, s'.stream other = s.stream other := by
    intro other
    rw [stream, stream, hsent]
  rw [inOrder_iff_of_others h socket (fun other hne ↦ ?_) hrest fun other _ ↦ hstream other, hwire,
    wire_put_self, hstream, ← h socket, List.append_assoc, List.append_cancel_left_eq]
  rw [hwire]
  exact wire_put_of_ne hne _

theorem Tracked.step {s' : State} {e : Event} (h : s.Tracked) (hstep : Steps s e s')
    (hfresh : s.Fresh e) : s'.Tracked := by
  cases hstep with
  | refused => exact h
  | sent => exact h.accept _ _ _ _
  | kept hfree hanswer hpart hsocket hbytes hiovecs htotal =>
    subst hsocket
    refine (h.accept _ _ _ _).keep ?_ hfree ?_ ?_
    · exact KeyedList.lookup_eq_none_iff.2 (hfresh hfree hanswer hpart)
    · rw [htotal, hiovecs]
    · rw [hbytes, hiovecs]
      exact hpart
  | dropped hpending hwrite =>
    obtain ⟨writes, rfl, hentries, -⟩ := getWrite_spec h.single hwrite
    exact (h.moved hentries).writeComplete _
  | completed hpending hwrite =>
    obtain ⟨writes, rfl, hentries, -⟩ := getWrite_spec h.single hwrite
    exact ((h.moved hentries).put _ _).writeComplete _
  | advanced hpending hwrite hanswer hle hpart =>
    rename_i socket answer pw t
    obtain ⟨writes, rfl, hentries, hat, hkept⟩ := getWrite_spec h.single hwrite
    have hbound := h.bytes_add_le hkept hle
    rw [h.total _ (KeyedList.mem_of_lookup hkept)] at hpart
    have hput := (h.moved hentries).put socket ((unwrittenLoop pw.bytes 0 pw.iovecs).flatten.take
      answer.bytes)
    have hsame := (congrArg (KeyedList.lookup PendingWrites.socket socket) hentries).trans hkept
    exact hput.advance hat hsame (by omega)
  | closed =>
    exact ⟨h.single, h.nodup.erase _,
      fun other hother ↦ h.kept other (List.mem_of_mem_erase hother), h.total, h.left⟩

/-- Something is left of a pending write. -/
theorem Tracked.rest_ne_nil (h : s.Tracked) (hpending : socket ∈ s.writePending)
    {pw : PendingWrites} (hkept : s.kept socket = some pw) : s.rest socket ≠ [] := by
  have hleft := h.left _ (KeyedList.mem_of_lookup hkept)
  rw [rest_of_mem h.single hpending hkept]
  intro hnil
  have hlen := congrArg List.length hnil
  rw [List.length_nil, List.length_drop] at hlen
  omega

/-- Where there was no pending write, the rest of a packet that is kept is what is left. -/
theorem Tracked.inOrder_keep (htracked : s.Tracked) (h : s.InOrder) {pw : PendingWrites}
    (hnone : s.kept pw.socket = none) (hfree : pw.socket ∉ s.writePending) {header : Header}
    {buffers : List Bytes} (hiovecs : pw.iovecs.flatten = mqttPacketSends header buffers)
    (hkeep : ((s.accept pw.socket header buffers pw.bytes).keep pw).Tracked) :
    ((s.accept pw.socket header buffers pw.bytes).keep pw).InOrder := by
  have haccept := htracked.accept pw.socket header buffers pw.bytes
  have hothers : ∀ other, other ≠ pw.socket →
      ((s.accept pw.socket header buffers pw.bytes).keep pw).rest other = s.rest other :=
    fun other hne ↦ (haccept.rest_keep_of_ne hkeep hne).trans
      (rest_congr htracked.single haccept.single Iff.rfl rfl)
  have hiff : ((s.accept pw.socket header buffers pw.bytes).keep pw).InOrder ↔ _ :=
    inOrder_accept h hfree rfl rfl hothers
  have hnow : ((s.accept pw.socket header buffers pw.bytes).keep pw).kept pw.socket =
      some pw := by
    rw [kept_keep, if_pos rfl]
    exact (congrArg (Option.or · _) hnone).trans (Option.none_or ..)
  have hmem : pw.socket ∈ s.writePending ++ [pw.socket] :=
    List.mem_append_right _ (List.mem_singleton_self _)
  rw [hiff, rest_of_mem hkeep.single hmem hnow, hiovecs]

section Continue

variable {writes : CursorList PendingWrites} {pw : PendingWrites} {n : ℕ}

/-- Where the last bytes of a packet are taken nothing of it is left. -/
theorem Tracked.inOrder_writeComplete (htracked : s.Tracked) (h : s.InOrder)
    (hpending : socket ∈ s.writePending) (hkept : s.kept socket = some pw)
    (hentries : writes.entries = s.writes.entries)
    (hle : n ≤ (unwrittenLoop pw.bytes 0 pw.iovecs).flatten.length)
    (hall : ((pw.bytes + n : ℕ) : ℤ) = pw.total) :
    ((({ s with writes } : State).put socket
      ((unwrittenLoop pw.bytes 0 pw.iovecs).flatten.take n)).writeComplete socket).InOrder := by
  have hput := (htracked.moved hentries).put socket
    ((unwrittenLoop pw.bytes 0 pw.iovecs).flatten.take n)
  refine (inOrder_continue h socket ((unwrittenLoop pw.bytes 0 pw.iovecs).flatten.take n)
    ?_ ?_ ?_).2 ?_
  · rfl
  · rfl
  · exact fun other hne ↦ (hput.rest_writeComplete_of_ne hne).trans
      (rest_congr htracked.single hput.single Iff.rfl (congrArg (KeyedList.lookup _ _) hentries))
  · have htaken := take_unwritten_append hle
    rw [htracked.total _ (KeyedList.mem_of_lookup hkept)] at hall
    rw [hput.rest_writeComplete, rest_of_mem htracked.single hpending hkept, ← htaken,
      List.drop_of_length_le (by omega)]

/-- Where some of the bytes are taken the others are left. -/
theorem Tracked.inOrder_advance (htracked : s.Tracked) (h : s.InOrder)
    (hpending : socket ∈ s.writePending) (hkept : s.kept socket = some pw)
    (hentries : writes.entries = s.writes.entries)
    (hat : writes.AtKey PendingWrites.socket socket)
    (hle : n ≤ (unwrittenLoop pw.bytes 0 pw.iovecs).flatten.length)
    (hadvance : ((({ s with writes } : State).put socket
      ((unwrittenLoop pw.bytes 0 pw.iovecs).flatten.take n)).advance n).Tracked) :
    ((({ s with writes } : State).put socket
      ((unwrittenLoop pw.bytes 0 pw.iovecs).flatten.take n)).advance n).InOrder := by
  have hput := (htracked.moved hentries).put socket
    ((unwrittenLoop pw.bytes 0 pw.iovecs).flatten.take n)
  have hsame : ∀ other, (({ s with writes } : State).put socket
      ((unwrittenLoop pw.bytes 0 pw.iovecs).flatten.take n)).kept other = s.kept other :=
    fun other ↦ congrArg (KeyedList.lookup _ other) hentries
  refine (inOrder_continue h socket ((unwrittenLoop pw.bytes 0 pw.iovecs).flatten.take n)
    ?_ ?_ ?_).2 ?_
  · rfl
  · rfl
  · exact fun other hne ↦ (hput.rest_advance_of_ne hat hadvance hne).trans
      (rest_congr htracked.single hput.single Iff.rfl (hsame other))
  · have hnext := kept_advance hput.single hat ((hsame socket).trans hkept) n
    rw [rest_of_mem htracked.single hpending hkept]
    refine (congrArg _ (rest_of_mem hadvance.single hpending hnext)).trans ?_
    exact take_unwritten_append hle

end Continue

/-- A socket that is closed starts again with nothing. -/
theorem Tracked.inOrder_close (htracked : s.Tracked) (h : s.InOrder) (socket : ℕ) :
    (s.close socket).InOrder := by
  refine (inOrder_iff_of_others h socket (fun other hne ↦ Function.update_of_ne hne _ _)
    (fun other hne ↦ ?_) fun other hne ↦ ?_).2 ?_
  · exact rest_congr htracked.single htracked.single (List.mem_erase_of_ne hne) rfl
  · show ((Function.update s.sent socket _ other).map _).flatten = _
    rw [Function.update_of_ne hne]
    rfl
  · show Function.update s.wire socket [] socket ++ _ =
      ((Function.update s.sent socket _ socket).map _).flatten
    rw [Function.update_self, Function.update_self, rest_of_not_mem htracked.nodup.not_mem_erase]
    rfl

/-- **One step.** From a state in which the bytes are in order a step leads to one with no more than
one pending write for a socket exactly when it meets the guard. -/
theorem inOrder_step_iff {s' : State} {e : Event} (htracked : s.Tracked) (h : s.InOrder)
    (hstep : Steps s e s') : s'.InOrder ∧ s'.Single ↔ Sound s e s' := by
  cases hstep with
  | refused hrefused =>
    refine iff_of_true ⟨h, htracked.single⟩ ⟨fun hfree hanswer ↦ ?_, fun _ ↦ Event.noConfusion⟩
    rcases hrefused with hpending | hfailed
    · exact absurd hpending hfree
    · exact absurd hfailed hanswer
  | sent hfree hanswer hall =>
    refine iff_of_true ⟨?_, htracked.single⟩
      ⟨fun _ _ hpart ↦ absurd hall (Nat.ne_of_lt hpart), fun _ ↦ Event.noConfusion⟩
    refine (inOrder_accept h hfree rfl rfl fun _ _ ↦ rfl).2 ?_
    rw [hall, List.drop_length]
    exact rest_of_not_mem hfree
  | kept hfree hanswer hpart hsocket hbytes hiovecs htotal =>
    rename_i socket header buffers answer pw
    subst hsocket
    constructor
    · -- A pending write that was there before makes two.
      rintro ⟨-, hsingle⟩
      have hlast := hsingle pw.socket
      rw [entries_keep] at hlast
      exact ⟨fun _ _ _ ↦ KeyedList.lookup_eq_none_iff.1 hlast.lookup_of_append,
        fun _ ↦ Event.noConfusion⟩
    · rintro ⟨hfresh, -⟩
      have hnone : s.kept pw.socket = none :=
        KeyedList.lookup_eq_none_iff.2 (hfresh hfree hanswer hpart)
      rw [← hbytes] at hpart ⊢
      have hkeep := (htracked.accept pw.socket header buffers pw.bytes).keep hnone hfree
        (by rw [htotal, hiovecs]) (by rwa [hiovecs])
      exact ⟨htracked.inOrder_keep h hnone hfree hiovecs hkeep, hkeep.single⟩
  | dropped hpending hwrite =>
    refine iff_of_false ?_ fun hguard ↦ hguard.2 _ rfl
    rename_i socket pw t
    rintro ⟨horder, -⟩
    obtain ⟨writes, rfl, hentries, -, hkept⟩ := getWrite_spec htracked.single hwrite
    have hwire : s.wire socket ++ (({ s with writes } : State).writeComplete socket).rest socket =
      s.stream socket := horder socket
    rw [(htracked.moved hentries).rest_writeComplete, ← h socket,
      List.append_cancel_left_eq] at hwire
    exact htracked.rest_ne_nil hpending hkept hwire.symm
  | completed hpending hwrite hanswer hle hall =>
    obtain ⟨writes, rfl, hentries, -, hkept⟩ := getWrite_spec htracked.single hwrite
    exact iff_of_true ⟨htracked.inOrder_writeComplete h hpending hkept hentries hle hall,
      (((htracked.moved hentries).put _ _).writeComplete _).single⟩
      ⟨trivial, fun _ heq ↦ hanswer (Event.continueWrite.inj heq).2⟩
  | advanced hpending hwrite hanswer hle hpart =>
    have hadvance := htracked.step (Steps.advanced hpending hwrite hanswer hle hpart) trivial
    obtain ⟨writes, rfl, hentries, hat, hkept⟩ := getWrite_spec htracked.single hwrite
    exact iff_of_true
      ⟨htracked.inOrder_advance h hpending hkept hentries hat hle hadvance, hadvance.single⟩
      ⟨trivial, fun _ heq ↦ hanswer (Event.continueWrite.inj heq).2⟩
  | closed =>
    exact iff_of_true ⟨htracked.inOrder_close h _, htracked.single⟩
      ⟨trivial, fun _ ↦ Event.noConfusion⟩

/-- A packet that a step reports as written is on the wire, and everything before it. -/
def Truthful (s s' : State) : Prop :=
  ∀ socket, s'.completed = s.completed ++ [socket] → s'.wire socket = s'.stream socket

/-- The report is false exactly when the write has failed. -/
theorem truthful_step_iff {s' : State} {e : Event} (htracked : s.Tracked) (h : s.InOrder)
    (hstep : Steps s e s') :
    s.Fresh e ∧ s.Truthful s' ↔ Sound s e s' := by
  refine and_congr_right fun hfresh ↦ ?_
  constructor
  · rintro htruthful socket rfl
    cases hstep with
    | dropped hpending hwrite =>
      obtain ⟨writes, rfl, -, -, hkept⟩ := getWrite_spec htracked.single hwrite
      have hwire : s.wire socket = s.stream socket := htruthful socket rfl
      have hrest : s.rest socket = [] := by
        have := h socket
        rwa [hwire, List.append_right_eq_self] at this
      exact absurd hrest (htracked.rest_ne_nil hpending hkept)
    | completed _ _ hanswer => exact absurd rfl hanswer
    | advanced _ _ hanswer => exact absurd rfl hanswer
  · intro hwhole socket hcompleted
    have horder : s'.InOrder := ((inOrder_step_iff htracked h hstep).2 ⟨hfresh, hwhole⟩).1
    cases hstep with
    | completed hpending hwrite hanswer hle hall =>
      rename_i socket' answer pw t
      obtain ⟨writes, rfl, hentries, -⟩ := getWrite_spec htracked.single hwrite
      have heq : s.completed ++ [socket'] = s.completed ++ [socket] := hcompleted
      obtain rfl : socket' = socket := by simpa using heq
      have hput := (htracked.moved hentries).put socket'
        ((unwrittenLoop pw.bytes 0 pw.iovecs).flatten.take answer.bytes)
      have hwire := horder socket'
      rwa [hput.rest_writeComplete, List.append_nil] at hwire
    | dropped => exact absurd rfl (hwhole _)
    | advanced hpending hwrite =>
      obtain ⟨writes, rfl, -⟩ := getWrite_spec htracked.single hwrite
      exact absurd hcompleted (by simp [advance, put])
    | _ => exact absurd hcompleted (by simp [accept, keep, put, close])

/-- What the runs keep: the pending writes are in place, and the bytes in order. -/
structure Ordered (s : State) : Prop where
  /-- The pending writes are in place. -/
  tracked : s.Tracked
  /-- The bytes are in order. -/
  inOrder : s.InOrder

theorem ordered_start : start.Ordered := ⟨tracked_start, fun _ ↦ rfl⟩

/-- **A step that meets the guard** keeps it. -/
theorem Ordered.step {s' : State} {e : Event} (h : s.Ordered) (hstep : machine.step s e = some s')
    (hsound : Sound s e s') : s'.Ordered :=
  ⟨h.tracked.step (step_cases hstep) hsound.1,
    ((inOrder_step_iff h.tracked h.inOrder (step_cases hstep)).2 hsound).1⟩

/-- A run of such steps keeps it. -/
theorem always_ordered {events : List Event} (h : machine.EachStep Sound start events) :
    machine.Always Ordered start events :=
  machine.always_of_guarded (fun _ _ _ hs hstep hsound ↦ hs.step hstep hsound) (fun _ hs ↦ hs)
    ordered_start h

end State

/-- **When the bytes go out in order.** Along a run no socket ever has two pending writes, and the
bytes written to every socket, with those still to be written, are always the packets accepted for
it one after the other, exactly when every step meets the guard. -/
theorem inOrder_iff (events : List Event) :
    machine.Always (fun s ↦ s.InOrder ∧ s.Single) State.start events ↔
      machine.EachStep State.Sound State.start events := by
  refine machine.always_iff (J := State.Ordered) (fun s hs ↦ ⟨hs.inOrder, hs.tracked.single⟩)
    (fun s e s' hs hstep ↦ ?_) State.ordered_start events
  have hiff := State.inOrder_step_iff hs.tracked hs.inOrder (State.step_cases hstep)
  exact ⟨hs.step hstep, hiff.1⟩

/-- **What is reported as written.** As long as no pending write of an earlier connection comes in
the way, the bytes stay in order exactly as long as every packet that is reported as written has
been. -/
theorem inOrder_iff_truthful (events : List Event) :
    machine.Always (fun s ↦ s.InOrder ∧ s.Single) State.start events ↔
      machine.EachStep (fun s e s' ↦ s.Fresh e ∧ s.Truthful s') State.start events := by
  refine machine.always_iff (J := State.Ordered) (fun s hs ↦ ⟨hs.inOrder, hs.tracked.single⟩)
    (fun s e s' hs hstep ↦ ?_) State.ordered_start events
  have hiff := State.inOrder_step_iff hs.tracked hs.inOrder (State.step_cases hstep)
  have htruthful := State.truthful_step_iff hs.tracked hs.inOrder (State.step_cases hstep)
  exact ⟨fun h ↦ hs.step hstep (htruthful.1 h), fun h ↦ htruthful.2 (hiff.1 h)⟩

end Writing
