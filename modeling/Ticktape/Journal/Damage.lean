import Ticktape.Cluster.Persist
import Ticktape.Journal.Segment
import Ticktape.Journal.Snapshot

/-!
# Burst errors in checked blocks

Acceptor records, snapshot headers, segment headers and frame headers all end in the CRC32C of what
stands before it, and their readers refuse a block that fails its check. A change within 32
consecutive bits always fails it, wherever it lies: in the fields, in the stored checksum, or across
the two.
-/

namespace Ticktape.Journal

open Ticktape.Lib Ticktape.Core Ticktape.Cluster

/-- **Every burst is caught**, and no reader accepts what it left: of a checked block, an acceptor
record, and the headers of a snapshot, a segment and a frame. -/
theorem bursts_caught :
    (∀ d q, BitBurst 32 (d ++ leBytes 4 (crc32c d).toNat) q →
      (crc32c (q.take d.length)).toNat ≠ leNat (q.drop d.length)) ∧
    (∀ promised q, BitBurst 32 (recordBytes promised) q → ∃ e, parseRecord q = .error e) ∧
    (∀ seq epoch len q rest, BitBurst 32 (withCrc (snapshotHeaderFields seq epoch len)) q →
      parseSnapshot (q ++ rest) = none) ∧
    (∀ firstSeq epoch segment q rest, BitBurst 32 (segmentHeaderBytes firstSeq epoch) q →
      ∃ e, parseSegmentHeader segment (q ++ rest) = .error e) ∧
    ∀ (f : Frame) q rest, BitBurst 32 (withCrc f.headerBytes) q →
      ∃ e, Frame.readFrom (q ++ rest) = .error e := by
  refine ⟨fun d q h => ?_, fun promised q h => ?_, fun seq epoch len q rest h => ?_,
    fun firstSeq epoch segment q rest h => ?_, fun f q rest h => ?_⟩
  · have hlen : q.length = d.length + 4 := by
      rw [h.length_eq, List.length_append, leBytes_length]
    have hrejects := withCrc_rejects_burst h []
    rw [List.append_nil, slice, slice, List.drop_zero] at hrejects
    -- nothing stands behind the stored checksum
    rwa [List.take_of_length_le (l := q.drop d.length) (by simp [hlen])] at hrejects
  · exact parseRecord_burst h
  · exact parseSnapshot_header_burst h rest
  · exact parseSegmentHeader_burst h segment rest
  · exact Frame.readFrom_header_burst f rest h

/-- One flipped bit is a burst. -/
example : BitBurst 32 [0] [4] := ⟨[false, false], [false], [true], [false, false, false, false, false],
  by decide, by decide, rfl, by decide, by decide⟩

end Ticktape.Journal
