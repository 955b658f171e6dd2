import Testbus.Lib.Framing
import Testbus.Proxy.Steps

namespace Testbus.Proxy

open Lib World

section Sizes

variable {packet : Bytes}

theorem sizeOf_append (enough : dataHeaderSize ≤ packet.length) (more : Bytes) :
    sizeOf (packet ++ more) = sizeOf packet := by
  rw [sizeOf, parse_append enough, sizeOf]

/-- Frames tell their size in their header, unless it wraps around. -/
def packets : Framing.Sizing UInt8 where
  size stream :=
    if dataHeaderSize ≤ stream.length ∧ dataHeaderSize ≤ sizeOf stream then some (sizeOf stream)
    else none
  positive found := by
    split at found
    · rename_i room
      cases found
      exact Nat.lt_of_lt_of_le (by decide) room.2
    · cases found
  stable found more := by
    split at found
    · rename_i room
      rw [sizeOf_append room.1, if_pos ⟨by rw [List.length_append]; omega, room.2⟩]
      exact found
    · cases found

theorem packets_size : packets.size packet = some n ↔
    dataHeaderSize ≤ packet.length ∧ dataHeaderSize ≤ n ∧ sizeOf packet = n := by
  simp only [packets, Option.ite_none_right_eq_some, Option.some.injEq]
  constructor
  · rintro ⟨⟨enough, room⟩, rfl⟩
    exact ⟨enough, room, rfl⟩
  · rintro ⟨enough, room, rfl⟩
    exact ⟨⟨enough, room⟩, rfl⟩

theorem whole_packets : Whole packet ↔ packets.Whole packet := by
  rw [Framing.Sizing.Whole, packets_size, Whole]
  constructor
  · rintro ⟨enough, equal⟩
    exact ⟨enough, enough, equal.symm⟩
  · rintro ⟨enough, _, equal⟩
    exact ⟨enough, equal.symm⟩

/-- The bytes do not reach beyond the frame that they begin. -/
def Within (packet : Bytes) : Prop := ∀ n, packets.size packet = some n → packet.length ≤ n

theorem within_short (short : packet.length ≤ dataHeaderSize) : Within packet := by
  intro n sized
  exact Nat.le_trans short (packets_size.mp sized).2.1

theorem Within.unfinished (within : Within packet) (other : ¬ Whole packet) : packets.Unfinished packet := by
  intro n sized
  refine Nat.lt_of_le_of_ne (within n sized) ?_
  intro equal
  obtain ⟨enough, _, size⟩ := packets_size.mp sized
  exact other ⟨enough, equal.trans size.symm⟩

theorem within_of_unfinished (unfinished : packets.Unfinished packet) : Within packet :=
  fun n sized => Nat.le_of_lt (unfinished n sized)

theorem unfinished_nil : packets.Unfinished [] := by
  intro n sized
  exact absurd (packets_size.mp sized).1 (by decide)

theorem ntohl_htonl (x : UInt32) : ntohl (htonl x) = x := by
  have bound := x.toNat_lt
  apply UInt32.toNat_inj.mp
  simp only [ntohl, htonl, List.foldl_cons, List.foldl_nil, UInt32.toNat_ofNat', UInt8.toNat_ofNat']
  omega

theorem parse_bytes (hdr : DataHeader) (payload : Bytes) : DataHeader.parse (hdr.bytes ++ payload) = hdr := by
  rw [parse_append (length_header hdr).ge]
  change DataHeader.mk (ntohl (htonl hdr.cmd)) (ntohl (htonl hdr.channel)) (ntohl (htonl hdr.count)) = hdr
  rw [ntohl_htonl, ntohl_htonl, ntohl_htonl]

/-- A header, and as many bytes as it counts. -/
structure Frame where
  hdr : DataHeader
  payload : Bytes
  counted : hdr.count.toNat = payload.length
  small : payload.length + dataHeaderSize < 2 ^ 32

def Frame.bytes (frame : Frame) : Bytes := frame.hdr.bytes ++ frame.payload

theorem Frame.whole (frame : Frame) : packets.Whole frame.bytes := by
  rw [← whole_packets, Whole, sizeOf, Frame.bytes, parse_bytes, frame.counted, List.length_append,
    length_header, Nat.mod_eq_of_lt frame.small]
  exact ⟨Nat.le_add_right _ _, Nat.add_comm _ _⟩

/-- The header and the payload of a packet. -/
def unpack (packet : Bytes) : DataHeader × Bytes := (DataHeader.parse packet, packet.drop dataHeaderSize)

theorem unpack_bytes (frame : Frame) : unpack frame.bytes = (frame.hdr, frame.payload) :=
  Prod.ext (parse_bytes _ _) (List.drop_left' (length_header frame.hdr))

/-- How many bytes a pass of the read loop asks for at most. -/
def missing (packet : Bytes) : Nat :=
  if packet.length < dataHeaderSize then dataHeaderSize - packet.length
  else sizeOf packet - packet.length

/-- The reads of a call use its budget up exactly where the frame ends. -/
def lands (rcount : Nat) (packet : Bytes) : List (Option Bytes) → Bool
  | [] => rcount = 0 && Whole packet
  | answer :: rest =>
    if rcount = 0 then Whole packet
    else if dataHeaderSize ≤ packet.length ∧ sizeOf packet ≤ packet.length then false
    else
      let got := (answer.getD []).take (min (missing packet) rcount)
      got ≠ [] && lands (rcount - got.length) (packet ++ got) rest

end Sizes

section Loop

variable {bp : NiBuffer} {received : Bytes} {answers : List (Option Bytes)}

/-- What one read adds to the packet under construction. -/
theorem fill_read (fits : bp.Fits) (bytes : Bytes) (rcount : Nat) :
    ((bp.ensureTailroom (min (missing bp.contents) rcount)).fill (bytes.take (min (missing bp.contents) rcount))).Fits ∧
      ((bp.ensureTailroom (min (missing bp.contents) rcount)).fill
        (bytes.take (min (missing bp.contents) rcount))).contents =
        bp.contents ++ bytes.take (min (missing bp.contents) rcount) := by
  generalize wanted : min (missing bp.contents) rcount = rnext
  have wf := NiBuffer.wellFormed_ensureTailroom fits.toWellFormed rnext
  have tail := NiBuffer.room_ensureTailroom fits.toWellFormed rnext
  have short : (bytes.take rnext).length ≤ rnext := List.length_take_le _ _
  have filled := NiBuffer.contents_fill wf (Nat.le_trans short tail)
  rw [NiBuffer.contents_ensureTailroom] at filled
  refine ⟨⟨NiBuffer.wellFormed_fill wf (Nat.le_trans short tail), ?_⟩, filled⟩
  have bound := wanted_bound fits
  rw [filled, List.length_append]
  rw [missing] at wanted
  rw [fits.count_eq] at bound
  by_cases header : bp.contents.length < dataHeaderSize
  · rw [if_pos header] at wanted bound
    omega
  · rw [if_neg header] at wanted bound
    rw [packetSize_eq (Nat.not_lt.mp header)] at bound
    omega

theorem wanted_eq (fits : bp.Fits) :
    (if bp.count < dataHeaderSize then dataHeaderSize - bp.count else packetSize bp - bp.count) =
      missing bp.contents := by
  rw [missing, fits.count_eq]
  by_cases header : bp.contents.length < dataHeaderSize
  · rw [if_pos header, if_pos header]
  · rw [if_neg header, if_neg header, packetSize_eq (Nat.not_lt.mp header)]

theorem beyond_iff (fits : bp.Fits) : (dataHeaderSize ≤ bp.count ∧ ¬ bp.count < packetSize bp) ↔
    dataHeaderSize ≤ bp.contents.length ∧ sizeOf bp.contents ≤ bp.contents.length := by
  rw [fits.count_eq, Nat.not_lt]
  exact and_congr_right fun enough => by rw [packetSize_eq enough]

/-- One read never reaches beyond the frame. -/
theorem within_read (unfinished : Partial packet) (bytes : Bytes) (rcount : Nat) :
    Within (packet ++ bytes.take (min (missing packet) rcount)) := by
  have short : (bytes.take (min (missing packet) rcount)).length ≤ missing packet :=
    Nat.le_trans (List.length_take_le _ _) (Nat.min_le_left _ _)
  generalize bytes.take (min (missing packet) rcount) = got at short
  rw [missing] at short
  by_cases header : packet.length < dataHeaderSize
  · rw [if_pos header] at short
    apply within_short
    rw [List.length_append]
    omega
  · rw [if_neg header] at short
    have enough := Nat.not_lt.mp header
    have more := unfinished enough
    intro n sized
    obtain ⟨_, _, rfl⟩ := packets_size.mp sized
    rw [sizeOf_append enough, List.length_append]
    omega

theorem loop_within (rcount : Nat) (received : Bytes) (answers : List (Option Bytes))
    (fits : bp.Fits) (within : Within bp.contents) :
    Within (proxyRecvDemuxLoop rcount bp received answers).bp.contents := by
  fun_induction proxyRecvDemuxLoop rcount bp received answers with
  | case1 => exact within
  | case2 => exact within
  | case3 => exact within
  | case4 =>
    rw [NiBuffer.contents_ensureTailroom]
    exact within
  | case5 =>
    rw [NiBuffer.contents_ensureTailroom]
    exact within
  | case6 =>
    rw [NiBuffer.contents_ensureTailroom]
    exact within
  | case7 rcount bp received more avail pktsize unfinished inside wanted rnext grown bytes answers got some' ih =>
    have same : wanted = missing bp.contents := wanted_eq fits
    obtain ⟨fits', filled⟩ := fill_read fits bytes rcount
    rw [← same] at fits' filled
    refine ih fits' ?_
    rw [filled, same]
    exact within_read (partial_of_counts fits inside) bytes rcount

theorem lands_beyond (more : rcount ≠ 0)
    (beyond : dataHeaderSize ≤ packet.length ∧ sizeOf packet ≤ packet.length) : lands rcount packet answers = false := by
  cases answers with
  | nil => simp [lands, more]
  | cons answer rest => rw [lands, if_neg more, if_pos beyond]

/-- A call leaves a complete frame where it is exactly if its reads use the budget up at the end
of the frame. -/
theorem loop_lands (received : Bytes) (fits : bp.Fits) :
    ((proxyRecvDemuxLoop rcount bp received answers).reason ≠ .packet ∧
      Whole (proxyRecvDemuxLoop rcount bp received answers).bp.contents) ↔ lands rcount bp.contents answers = true := by
  fun_induction proxyRecvDemuxLoop rcount bp received answers with
  | case1 answers bp received =>
    have landed : lands 0 bp.contents answers = decide (Whole bp.contents) := by
      cases answers with
      | nil => simp [lands]
      | cons answer rest => simp [lands]
    rw [landed, decide_eq_true_iff]
    exact and_iff_right (by simp)
  | case2 answers rcount bp received more avail pktsize complete =>
    have beyond := (beyond_iff fits).mp ⟨complete.1, Nat.not_lt.mpr (Nat.le_of_eq complete.2.symm)⟩
    rw [lands_beyond more beyond]
    exact iff_of_false (fun stays => stays.1 rfl) Bool.false_ne_true
  | case3 answers rcount bp received more avail pktsize unfinished beyond =>
    rw [lands_beyond more ((beyond_iff fits).mp beyond)]
    refine iff_of_false ?_ Bool.false_ne_true
    rintro ⟨-, whole⟩
    have complete := (packetComplete_iff fits).mpr whole
    simp only [packetComplete, Bool.and_eq_true, decide_eq_true_eq] at complete
    exact unfinished complete
  | case4 rcount bp received more avail pktsize unfinished inside wanted rnext grown =>
    have room := partial_of_counts fits inside
    rw [NiBuffer.contents_ensureTailroom]
    refine iff_of_false (fun stays => not_whole_of_partial room stays.2) ?_
    simp [lands, more]
  | case5 rcount bp received more avail pktsize unfinished inside wanted rnext grown answers =>
    have room := partial_of_counts fits inside
    rw [NiBuffer.contents_ensureTailroom]
    refine iff_of_false (fun stays => not_whole_of_partial room stays.2) ?_
    simp [lands, more]
  | case6 rcount bp received more avail pktsize unfinished inside wanted rnext grown bytes answers got empty =>
    have room := partial_of_counts fits inside
    have same : wanted = missing bp.contents := wanted_eq fits
    rw [NiBuffer.contents_ensureTailroom]
    refine iff_of_false (fun stays => not_whole_of_partial room stays.2) ?_
    have nothing : bytes.take (min (missing bp.contents) rcount) = [] := same ▸ empty
    simp [lands, more, nothing]
  | case7 rcount bp received more avail pktsize unfinished inside wanted rnext grown bytes answers got some' ih =>
    have same : wanted = missing bp.contents := wanted_eq fits
    obtain ⟨fits', filled⟩ := fill_read fits bytes rcount
    rw [← same] at fits' filled
    have within := mt (beyond_iff fits).mpr inside
    have something : bytes.take (min (missing bp.contents) rcount) ≠ [] := same ▸ some'
    have passed : lands rcount bp.contents (some bytes :: answers) =
        lands (rcount - got.length) (bp.contents ++ got) answers := by
      rw [lands, if_neg more, if_neg within]
      simp only [Option.getD_some, something, ne_eq, not_false_eq_true, decide_true, Bool.true_and]
      rw [← same]
    rw [passed, ← filled]
    exact ih fits'

end Loop

end Testbus.Proxy
