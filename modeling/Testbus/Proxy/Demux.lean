import Testbus.Proxy.Act

namespace Testbus.Proxy

open Lib

/-- Read a header from the first bytes of a packet. -/
def DataHeader.parse (bytes : Bytes) : DataHeader where
  cmd := ntohl (bytes.take 4)
  channel := ntohl ((bytes.drop 4).take 4)
  count := ntohl ((bytes.drop 8).take 4)

theorem load_inside {bp : NiBuffer} (enough : offset + n ≤ bp.contents.length) :
    bp.load (bp.head + offset) n = (bp.contents.drop offset).take n := by
  have whole := NiBuffer.load_head enough
  have start : bp.load bp.head offset = bp.contents.take offset := NiBuffer.load_head (by omega)
  rw [NiBuffer.load_add, start] at whole
  have cut := congrArg (List.drop offset) whole
  rw [List.drop_left' (by rw [List.length_take]; omega)] at cut
  rw [cut, List.drop_take]
  congr 1
  omega

theorem header_parse {bp : NiBuffer} (enough : dataHeaderSize ≤ bp.contents.length) :
    packetHeader bp = DataHeader.parse bp.contents := by
  have room : 12 ≤ bp.contents.length := enough
  unfold packetHeader DataHeader.at DataHeader.parse
  rw [NiBuffer.load_head (by omega), load_inside (by omega), load_inside (by omega)]

/-- The size of the packet whose first bytes are given, once its header is there. -/
def sizeOf (bytes : Bytes) : Nat := ((DataHeader.parse bytes).count.toNat + dataHeaderSize) % 2 ^ 32

theorem packetSize_eq (enough : dataHeaderSize ≤ bp.contents.length) : packetSize bp = sizeOf bp.contents := by
  rw [packetSize, sizeOf, ← header_parse enough]
  rfl

theorem parse_append (enough : dataHeaderSize ≤ bytes.length) (more : Bytes) :
    DataHeader.parse (bytes ++ more) = DataHeader.parse bytes := by
  have room : 12 ≤ bytes.length := enough
  simp only [DataHeader.parse]
  rw [List.take_append_of_le_length (by omega), List.drop_append_of_le_length (by omega),
    List.drop_append_of_le_length (by omega), List.take_append_of_le_length (by simp; omega),
    List.take_append_of_le_length (by simp; omega)]

/-- Bytes that end exactly where the packet they start ends. -/
def Whole (bytes : Bytes) : Prop := dataHeaderSize ≤ bytes.length ∧ bytes.length = sizeOf bytes

instance (bytes : Bytes) : Decidable (Whole bytes) := by unfold Whole; infer_instance

theorem packetComplete_iff (fits : bp.Fits) : packetComplete bp = true ↔ Whole bp.contents := by
  simp only [packetComplete, Bool.and_eq_true, decide_eq_true_eq, Whole, fits.count_eq]
  constructor
  · rintro ⟨enough, equal⟩
    exact ⟨enough, equal.trans (packetSize_eq enough)⟩
  · rintro ⟨enough, equal⟩
    exact ⟨enough, equal.trans (packetSize_eq enough).symm⟩

/-- Bytes of a packet that is still to be completed. -/
def Partial (bytes : Bytes) : Prop := dataHeaderSize ≤ bytes.length → bytes.length < sizeOf bytes

theorem not_whole_of_partial (unfinished : Partial bytes) : ¬ Whole bytes :=
  fun whole => absurd whole.2 (Nat.ne_of_lt (unfinished whole.1))

/-- How the loop ended, told by its budget, by what it read and by the packet. -/
def DemuxEnd.Holds (budget : Nat) (received packet : Bytes) : DemuxEnd → Prop
  | .budgetSpent => received.length = budget
  | .packet => received.length < budget ∧ Whole packet
  | .overrun => dataHeaderSize ≤ packet.length ∧ sizeOf packet < packet.length
  | .endOfFile => Partial packet ∧ received = []
  | .readError | .partialPacket => Partial packet

/-- What the loop read is appended to the packet and stays within the budget. -/
structure DemuxRead.Spec (read : DemuxRead) (budget : Nat) (packet : Bytes) : Prop where
  fits : read.bp.Fits
  contents : read.bp.contents = packet ++ read.received
  bounded : read.received.length ≤ budget
  reason : read.reason.Holds budget read.received (packet ++ read.received)

theorem sizeOf_lt (bytes : Bytes) : sizeOf bytes < 2 ^ 32 := Nat.mod_lt _ (by decide)

/-- Where the loop reads on, the packet has bytes still to come. -/
theorem partial_of_counts (fits : bp.Fits)
    (inside : ¬ (dataHeaderSize ≤ bp.count ∧ ¬ bp.count < packetSize bp)) : Partial bp.contents := by
  intro enough
  rw [fits.count_eq, packetSize_eq enough] at inside
  omega

theorem wanted_bound (fits : bp.Fits) :
    bp.contents.length + (if bp.count < dataHeaderSize then dataHeaderSize - bp.count
      else packetSize bp - bp.count) < 2 ^ 32 := by
  have counted := fits.counted
  have header : dataHeaderSize = 12 := rfl
  rw [fits.count_eq]
  split
  · omega
  · have size := sizeOf_lt bp.contents
    rw [packetSize_eq (by omega)]
    omega

theorem demuxLoop_spec (fits : bp.Fits) (contents : bp.contents = packet ++ received)
    (spent : rcount + received.length = budget) : (proxyRecvDemuxLoop rcount bp received answers).Spec budget packet := by
  fun_induction proxyRecvDemuxLoop rcount bp received answers with
  | case1 answers bp received =>
    exact ⟨fits, contents, by simp only; omega, by simp only [DemuxEnd.Holds]; omega⟩
  | case2 answers rcount bp received more avail pktsize complete =>
    refine ⟨fits, contents, by simp only; omega, by simp only; omega, ?_⟩
    rw [← contents]
    refine (packetComplete_iff fits).mp ?_
    simpa only [packetComplete, Bool.and_eq_true, decide_eq_true_eq] using complete
  | case3 answers rcount bp received more avail pktsize unfinished beyond =>
    have enough : dataHeaderSize ≤ bp.contents.length := fits.count_eq ▸ beyond.1
    have size := packetSize_eq enough
    refine ⟨fits, contents, by simp only; omega, ?_⟩
    simp only [DemuxEnd.Holds]
    rw [← contents]
    simp only [avail, pktsize, fits.count_eq, size] at unfinished beyond
    exact ⟨enough, by omega⟩
  | case4 rcount bp received more avail pktsize unfinished inside wanted rnext grown =>
    have room := partial_of_counts fits inside
    refine ⟨NiBuffer.fits_ensureTailroom fits _, ?_, by simp only; omega, ?_⟩
    · rw [NiBuffer.contents_ensureTailroom]; exact contents
    · exact contents ▸ room
  | case5 rcount bp received more avail pktsize unfinished inside wanted rnext grown answers =>
    have room := partial_of_counts fits inside
    refine ⟨NiBuffer.fits_ensureTailroom fits _, ?_, by simp only; omega, ?_⟩
    · rw [NiBuffer.contents_ensureTailroom]; exact contents
    · exact contents ▸ room
  | case6 rcount bp received more avail pktsize unfinished inside wanted rnext grown bytes answers got empty =>
    have room := partial_of_counts fits inside
    refine ⟨NiBuffer.fits_ensureTailroom fits _, ?_, by simp only; omega, ?_⟩
    · rw [NiBuffer.contents_ensureTailroom]; exact contents
    · simp only
      rw [← contents]
      split
      · exact ⟨room, ‹_›⟩
      · exact room
  | case7 rcount bp received more avail pktsize unfinished inside wanted rnext grown bytes answers got some' ih =>
    have wf := NiBuffer.wellFormed_ensureTailroom fits.toWellFormed rnext
    have tail := NiBuffer.room_ensureTailroom fits.toWellFormed rnext
    have short : got.length ≤ rnext := List.length_take_le _ _
    have within : rnext ≤ rcount := Nat.min_le_right _ _
    have filled := NiBuffer.contents_fill wf (Nat.le_trans short tail)
    rw [NiBuffer.contents_ensureTailroom] at filled
    have bound : bp.contents.length + wanted < 2 ^ 32 := wanted_bound fits
    have least : rnext ≤ wanted := Nat.min_le_left _ _
    refine ih ⟨NiBuffer.wellFormed_fill wf (Nat.le_trans short tail), ?_⟩ ?_ ?_
    · rw [filled, List.length_append]
      omega
    · rw [filled, contents, List.append_assoc]
    · rw [List.length_append]
      omega

end Testbus.Proxy
