import Rf4ce.Ota.Integrity

/-! The chunks that the server cuts its upgrade file into. -/
namespace Rf4ce.Ota
open Crash Drv

section Chunks
variable (serverMcu : Mcu) (f : Flash)

/-- Chunk `k` of the offered file. -/
def fileChunk (k : Nat) : List Byte :=
  bytes f (upgradeBase serverMcu f + otaFramesize * k) (frameLen (offeredInfo serverMcu f).imageSize k)

/-- A DATA_REQ for chunk `k` of the offered file. -/
def chunkStep (s : Server) (k : Nat) : Server × OtaRsp :=
  otaDataReqHandler f ⟨(offeredInfo serverMcu f).toOtaIdent, k⟩ s

def rspPayload : OtaRsp → List Byte
  | .dataRsp _ (some (_, payload)) => payload
  | _ => []

/-- The answer carries chunk `k` and is not empty. -/
def ChunkRight (k : Nat) (rsp : OtaRsp) : Prop :=
  fileChunk serverMcu f k ≠ [] ∧
    ∃ seqNo, rsp = .dataRsp seqNo (some (⟨(offeredInfo serverMcu f).toOtaIdent, k⟩, fileChunk serverMcu f k))

/-- The answers of the server to any requests for chunks of the file. -/
structure ChunksRight (s : Server) : Prop where
  each : ∀ ks : List Nat, (∀ k ∈ ks, otaFramesize * k < (offeredInfo serverMcu f).imageSize) →
    List.Forall₂ (ChunkRight serverMcu f) ks (Refine.run (chunkStep serverMcu f) s ks).2
  whole : (Refine.run (chunkStep serverMcu f) s (List.range (frameCount (offeredInfo serverMcu f).imageSize))).2.flatMap
    rspPayload = bytes f (upgradeBase serverMcu f) (offeredInfo serverMcu f).imageSize

end Chunks

section Serve
variable {serverMcu : Mcu} {f : Flash} {s : Server}

theorem chunkStep_serving (h : Serving serverMcu f s) (hsize : (offeredInfo serverMcu f).imageSize < otaMaxImageSize)
    {k : Nat} (hk : 48 * k < (offeredInfo serverMcu f).imageSize) :
    Serving serverMcu f (chunkStep serverMcu f s k).1 ∧
    (chunkStep serverMcu f s k).2 = .dataRsp s.seqNo (some (⟨(offeredInfo serverMcu f).toOtaIdent, k⟩,
      bytes f (upgradeBase serverMcu f + otaFramesize * k)
        (otaReadLen (u32 (k * otaFramesize)) (offeredInfo serverMcu f).imageSize))) := by
  have hident : (offeredInfo serverMcu f).toOtaIdent = s.rcOtaInfo.toOtaIdent := by
    rw [h.info]
  unfold chunkStep otaDataReqHandler
  rw [if_pos ⟨hident, h.valid⟩]
  constructor
  · exact ⟨h.info, h.valid, h.size, h.boot⟩
  · dsimp only
    rw [h.chunkAddr hsize hk, flashRead_eq, h.size, ← hident]

/-- The answers to a list of requests, as long as no request meets the last chunk of a file of
full chunks. -/
theorem chunks_each (h : Serving serverMcu f s) (hsize : (offeredInfo serverMcu f).imageSize < otaMaxImageSize)
    (hmod : (offeredInfo serverMcu f).imageSize % otaFramesize ≠ 0) (ks : List Nat)
    (hks : ∀ k ∈ ks, otaFramesize * k < (offeredInfo serverMcu f).imageSize) :
    List.Forall₂ (ChunkRight serverMcu f) ks (Refine.run (chunkStep serverMcu f) s ks).2 := by
  induction ks generalizing s with
  | nil => exact List.Forall₂.nil
  | cons k ks ih =>
    have hk : 48 * k < (offeredInfo serverMcu f).imageSize := hks k List.mem_cons_self
    obtain ⟨hs, hrsp⟩ := chunkStep_serving h hsize hk
    apply List.Forall₂.cons
    · have hlast : 48 * k + 48 ≠ (offeredInfo serverMcu f).imageSize := by
        unfold otaFramesize at hmod
        omega
      rw [otaReadLen_exact hk hsize, if_neg hlast] at hrsp
      constructor
      · have hpos : 0 < (fileChunk serverMcu f k).length := by
          unfold fileChunk frameLen otaFramesize
          rw [bytes_length]
          omega
        exact List.ne_nil_of_length_pos hpos
      · exact ⟨s.seqNo, hrsp⟩
    · exact ih hs fun k hmem => hks k (List.mem_cons_of_mem _ hmem)

/-- Right answers join to the chunks of the file. -/
theorem flatMap_right {ks : List Nat} {rsps : List OtaRsp} (h : List.Forall₂ (ChunkRight serverMcu f) ks rsps) :
    rsps.flatMap rspPayload = ks.flatMap (fileChunk serverMcu f) := by
  induction h with
  | nil => rfl
  | cons hk _ ih =>
    obtain ⟨-, seqNo, rfl⟩ := hk
    rw [List.flatMap_cons, List.flatMap_cons, ih]
    rfl

theorem fileChunks_prefix (serverMcu : Mcu) (f : Flash) (n : Nat) :
    (List.range n).flatMap (fileChunk serverMcu f) =
      bytes f (upgradeBase serverMcu f) (min (offeredInfo serverMcu f).imageSize (48 * n)) := by
  induction n with
  | zero => simp
  | succ n ih =>
    rw [List.range_succ, List.flatMap_append, ih, List.flatMap_singleton]
    by_cases hn : 48 * n < (offeredInfo serverMcu f).imageSize
    · have hend := frameLen_end hn
      have hmin : min (offeredInfo serverMcu f).imageSize (48 * n) = 48 * n := by omega
      rw [← hend, hmin, bytes_append]
      rfl
    · have hlen : frameLen (offeredInfo serverMcu f).imageSize n = 0 := by
        unfold frameLen otaFramesize
        omega
      have hmin : min (offeredInfo serverMcu f).imageSize (48 * (n + 1)) =
          min (offeredInfo serverMcu f).imageSize (48 * n) := by omega
      unfold fileChunk
      rw [hlen, bytes_zero, List.append_nil, hmin]

theorem ChunksRight.one (h : ChunksRight serverMcu f s) {k : Nat} (hk : 48 * k < (offeredInfo serverMcu f).imageSize) :
    ChunkRight serverMcu f k (chunkStep serverMcu f s k).2 := by
  have hall : List.Forall₂ (ChunkRight serverMcu f) [k] [(chunkStep serverMcu f s k).2] := by
    apply h.each [k]
    intro k' hk'
    rw [List.mem_singleton.mp hk']
    exact hk
  exact (List.forall₂_cons.mp hall).1

theorem Serving.chunks_iff (h : Serving serverMcu f s) (hpos : 0 < (offeredInfo serverMcu f).imageSize)
    (hsize : (offeredInfo serverMcu f).imageSize < otaMaxImageSize) :
    ChunksRight serverMcu f s ↔ (offeredInfo serverMcu f).imageSize % otaFramesize ≠ 0 := by
  constructor
  · intro hright hmod
    -- the last chunk is full, and its answer is empty
    have hmod : (offeredInfo serverMcu f).imageSize % 48 = 0 := hmod
    have hk : 48 * ((offeredInfo serverMcu f).imageSize / 48 - 1) < (offeredInfo serverMcu f).imageSize := by omega
    obtain ⟨-, hrsp⟩ := chunkStep_serving h hsize hk
    rw [otaReadLen_exact hk hsize, if_pos (by omega), bytes_zero] at hrsp
    obtain ⟨hne, seqNo, heq⟩ := hright.one hk
    rw [hrsp] at heq
    have hnil := congrArg rspPayload heq
    exact hne hnil.symm
  · intro hmod
    have heach := chunks_each h hsize hmod
    constructor
    · exact heach
    · have hcount : ∀ k ∈ List.range (frameCount (offeredInfo serverMcu f).imageSize),
          otaFramesize * k < (offeredInfo serverMcu f).imageSize := by
        intro k hk
        have hk := List.mem_range.mp hk
        unfold frameCount otaFramesize at *
        omega
      have hall : min (offeredInfo serverMcu f).imageSize (48 * frameCount (offeredInfo serverMcu f).imageSize) =
          (offeredInfo serverMcu f).imageSize := by
        unfold frameCount otaFramesize
        omega
      rw [flatMap_right (heach _ hcount), fileChunks_prefix, hall]

theorem exists_cfg (req : OtaIdent) : ∃ cfg : OtaCfg, cfg.ident = req :=
  ⟨⟨.mcu8258, req.manufaurerCode, req.chipType, req.fileVer, 16⟩, rfl⟩

/-- After an accepted START_REQ every chunk is served right exactly when the size of the file is
not a multiple of the chunk size. -/
theorem chunks_right_iff (serverMcu : Mcu) (f : Flash) (req : OtaIdent) (s : Server)
    (h : Offers f (upgradeBase serverMcu f) req) :
    ChunksRight serverMcu f (otaStartReqHandler serverMcu f req s).1 ↔
      (offeredInfo serverMcu f).imageSize % otaFramesize ≠ 0 := by
  obtain ⟨cfg, rfl⟩ := exists_cfg req
  obtain ⟨hpos, hsize⟩ := h.upgrade.size
  have hs := @otaStartReqCheck_serving cfg serverMcu f s h
  unfold otaStartReqHandler
  dsimp only
  generalize otaStartReqCheck serverMcu f cfg.ident s = s' at hs ⊢
  apply Serving.chunks_iff _ hpos hsize
  exact ⟨hs.info, hs.valid, hs.size, hs.boot⟩

/-- A file of 102 bytes. -/
theorem chunks_right_iff_target :
    ChunksRight .mcu8258 target (otaStartReqHandler .mcu8258 target cfg8258.ident targetIdle).1 ↔
      (offeredInfo .mcu8258 target).imageSize % otaFramesize ≠ 0 :=
  chunks_right_iff .mcu8258 target cfg8258.ident targetIdle (by decide +kernel)

/-- A target that offers a file of 96 bytes. -/
def fullChunks : Flash := offering 56 (smallImage.take 34)

/-- Its second chunk is answered with an empty payload. -/
theorem fullChunks_lastEmpty :
    Offers fullChunks (upgradeBase .mcu8258 fullChunks) cfg8258.ident ∧
      (offeredInfo .mcu8258 fullChunks).imageSize = 96 ∧
      (chunkStep .mcu8258 fullChunks (otaStartReqHandler .mcu8258 fullChunks cfg8258.ident targetIdle).1 1).2 =
        .dataRsp 1 (some (⟨newerIdent, 1⟩, [])) ∧
      ¬ChunksRight .mcu8258 fullChunks (otaStartReqHandler .mcu8258 fullChunks cfg8258.ident targetIdle).1 := by
  have hsize : (offeredInfo .mcu8258 fullChunks).imageSize = 96 := by decide +kernel
  have hrsp : (chunkStep .mcu8258 fullChunks (otaStartReqHandler .mcu8258 fullChunks cfg8258.ident targetIdle).1 1).2 =
      .dataRsp 1 (some (⟨newerIdent, 1⟩, [])) := by decide +kernel
  refine ⟨by decide +kernel, hsize, hrsp, fun hright => ?_⟩
  obtain ⟨hne, seqNo, heq⟩ := hright.one (k := 1) (by rw [hsize]; decide)
  rw [hrsp] at heq
  exact hne (congrArg rspPayload heq).symm

end Serve

end Rf4ce.Ota
