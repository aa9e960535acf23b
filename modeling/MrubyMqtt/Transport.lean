import MrubyMqtt.ReadingRefinement
import MrubyMqtt.WritingOrder

/-!
# From one end of a connection to the other

What `Socket_putdatas` accepts at one end comes out of `MQTTPacket_Factory` at the other, packet by
packet, if the network delivers in order. Both ends are the machines of their own processes, in
whatever state their other sockets are; the network appears only in the hypothesis that what has
been received is the front of what has been sent.
-/

open Bytes

namespace Transport

/-- A packet as the factory gives it. -/
def delivered (packet : Header × List Bytes) : UInt8 × Bytes := (packet.1.byte, packet.2.flatten)

/-- The one-shot reader cuts a stream of packets into the packets. -/
theorem frames_stream {w : Writing.State} {socket : ℕ}
    (hsmall : ∀ packet ∈ w.sent socket, (packet.2.map List.length).sum < 128 ^ 4) :
    Reading.packetFramer.frames (w.stream socket) = ((w.sent socket).map delivered, []) := by
  have hnext : ∀ packet ∈ w.sent socket,
      Reading.packetFramer.next (mqttPacketSends packet.1 packet.2) =
        some (delivered packet, []) := by
    intro packet hpacket
    rw [Reading.packetFramer_next, mqttPacketFactory_sends packet.1 (hsmall packet hpacket),
      Option.map_some, delivered]
  rw [Writing.State.stream]
  exact Reading.packetFramer.frames_flatten _ delivered (w.sent socket) hnext

/-- **From end to end.** The packets read from a connection are the first of those accepted for it
at the other end; and when everything has been written and has arrived, they are all of them, with
nothing left over. Both ends keep to the conditions under which they are in order, packets are no
longer than the protocol allows, and the network delivers in order. -/
theorem packets_prefix_sent {malloc : Reading.SocketQueue} {writes : List Writing.Event}
    {reads : List Reading.Event} {w : Writing.State} {r : Reading.State}
    (hwrites : Writing.machine.run Writing.State.start writes = some w)
    (hsound : Writing.machine.EachStep Writing.State.Sound Writing.State.start writes)
    (hreads : (Reading.machine malloc).run (Reading.State.initial malloc) reads = some r)
    (horderly : (Reading.machine malloc).EachStep Reading.State.Orderly
      (Reading.State.initial malloc) reads)
    {near far : ℕ} (hfar : far ≠ 0) (hopen : far ∉ r.broken)
    (hsmall : ∀ packet ∈ w.sent near, (packet.2.map List.length).sum < 128 ^ 4)
    (hnetwork : r.received far <+: w.wire near) :
    r.packets far <+: (w.sent near).map delivered ∧
      (r.received far = w.wire near → w.rest near = [] →
        r.packets far = (w.sent near).map delivered ∧ r.buffers.held far = []) := by
  have horder : w.wire near ++ w.rest near = w.stream near :=
    ((Writing.State.always_ordered hsound).last _ hwrites).inOrder near
  have hframed : r.Framed far :=
    ((Reading.State.always_good malloc horderly).last _ hreads).framed hfar hopen
  rw [Reading.State.Framed] at hframed
  have hstream := frames_stream hsmall
  constructor
  · have hprefix : r.received far <+: w.stream near :=
      hnetwork.trans (horder ▸ List.prefix_append _ _)
    have hframes := Reading.packetFramer.frames_prefix hprefix
    rwa [hframed, hstream] at hframes
  · intro hall hnothing
    rw [hnothing, List.append_nil] at horder
    rw [hall, horder, hstream, Prod.mk.injEq] at hframed
    exact ⟨hframed.1.symm, hframed.2.symm⟩

/-- A packet is written in two parts and read in three. -/
theorem packets_prefix_sent_parts :
    ∃ (w : Writing.State) (r : Reading.State),
      Writing.machine.run Writing.State.start
        [.sends 7 ⟨PUBLISH, 0, 0, 0⟩ [[0, 1], [97], [98]] (.wrote 3),
          .continueWrite 7 (.wrote 1), .continueWrite 7 (.wrote 2)] = some w ∧
      (Reading.machine ⟨1, 2, 3, ⟨#[4, 5, 6, 7, 8], rfl⟩, 9, 10, []⟩).run
        (Reading.State.initial ⟨1, 2, 3, ⟨#[4, 5, 6, 7, 8], rfl⟩, 9, 10, []⟩)
        [.factory 5 [.data [0x30], .wouldBlock], .factory 5 [.data [4], .data [0, 1, 97]],
          .factory 5 [.data [98]]] = some r ∧
      r.packets 5 <+: (w.sent 7).map delivered := by
  have hparts : ∀ (w : Writing.State) (r : Reading.State),
      Writing.machine.run Writing.State.start
        [.sends 7 ⟨PUBLISH, 0, 0, 0⟩ [[0, 1], [97], [98]] (.wrote 3),
          .continueWrite 7 (.wrote 1), .continueWrite 7 (.wrote 2)] = some w →
      (Reading.machine ⟨1, 2, 3, ⟨#[4, 5, 6, 7, 8], rfl⟩, 9, 10, []⟩).run
        (Reading.State.initial ⟨1, 2, 3, ⟨#[4, 5, 6, 7, 8], rfl⟩, 9, 10, []⟩)
        [.factory 5 [.data [0x30], .wouldBlock], .factory 5 [.data [4], .data [0, 1, 97]],
          .factory 5 [.data [98]]] = some r →
      r.packets 5 <+: (w.sent 7).map delivered := by
    intro w r hw hr
    obtain rfl := Option.some.inj hw
    obtain rfl := Option.some.inj hr
    exact (packets_prefix_sent hw (by decide) hr (by decide) (by decide) (by decide) (by decide)
      (by decide)).1
  exact ⟨_, _, rfl, rfl, hparts _ _ rfl rfl⟩

end Transport
