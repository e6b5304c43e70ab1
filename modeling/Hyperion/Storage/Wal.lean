import Hyperion.Lib.Lines
import Hyperion.Lib.Utf8
import Hyperion.Capability.Monitor

/-!
# The write-ahead log

`Wal` of `hyperion-storage` is a file of lines, one record each. A `Codec` is how a record becomes a
line and a line a record: `serde_json` on its own (`SerdeJson.plain`), or `serde_json` under a seal
whose nonce is fresh at every write. What is known of `serde_json` is `Codec.Lawful`.
-/

namespace Hyperion.Storage
open Lib List

abbrev ObjectId := Nat

/-- The counter of versions is a `u64` that is taken not to overflow. -/
abbrev VersionId := Nat

structure WalRecord (V : Type) where
  objectId : ObjectId
  prevVersion : Option VersionId
  newVersion : VersionId
  metadata : V
  actorOrigin : Nat
deriving DecidableEq, Repr

structure VersionRecord (V : Type) where
  objectId : ObjectId
  parentVersion : Option VersionId
  metadata : V
deriving DecidableEq, Repr

inductive StorageError
  | unauthorized
  | notFound
  | concurrentWriteConflict (objectId : ObjectId) (expected found : Option VersionId)
  | wal
deriving DecidableEq, Repr

/-! ## Lines -/

/-- How a log writes a record as a line (without its newline) and reads the text of a line. -/
structure Codec (V : Type) where
  Nonce : Type
  line : Nonce → WalRecord V → List UInt8
  parseLine : String → Option (WalRecord V)

/-- The functions of `serde_json` that the log calls on its records. -/
structure SerdeJson (V : Type) where
  toVec : WalRecord V → List UInt8
  fromStr : String → Option (WalRecord V)

/-- The log of `StorageEngine::open`, which is not encrypted. -/
@[reducible] def SerdeJson.plain {V : Type} (S : SerdeJson V) : Codec V where
  Nonce := Unit
  line _ r := S.toVec r
  parseLine := S.fromStr

/-- A write that reaches the disk, or one that fails after the first `written` bytes. -/
inductive Io
  | completed
  | failed (written : Nat)
deriving DecidableEq, Repr

section
variable {V : Type} (C : Codec V)

/-- `append_and_fsync`: what it returns, and the file after it. -/
def appendAndFsync (file : List UInt8) (nonce : C.Nonce) (record : WalRecord V) (io : Io) :
    Except StorageError Unit × List UInt8 :=
  let line := C.line nonce record ++ [newline]
  match io with
  | .completed => (.ok (), file ++ line)
  | .failed written => (.error .wal, file ++ line.take written)

def replayLines : List (List UInt8) → Except StorageError (List (WalRecord V))
  | [] => .ok []
  | bytes :: rest =>
    match decodeUtf8 bytes with
    | none => .error .wal
    | some line =>
      if line.isEmpty then replayLines rest
      else match C.parseLine line with
        | none => .ok []
        | some record => (replayLines rest).map (record :: ·)

/-- `Wal::replay`; a path with no file reads as the empty one. -/
def replay (file : List UInt8) : Except StorageError (List (WalRecord V)) :=
  replayLines C (splitLines file)

/-- The lines that `compact_impl` writes, each record under a nonce of its own. -/
def linesOf : (Nat → C.Nonce) → List (WalRecord V) → List (List UInt8)
  | _, [] => []
  | nonce, record :: records => C.line (nonce 0) record :: linesOf (fun i => nonce (i + 1)) records

/-- The file that `compact_impl` renames over the old one. -/
def rewritten (nonce : Nat → C.Nonce) (records : List (WalRecord V)) : List UInt8 :=
  unlines (linesOf C nonce records)

/-! ## What is known of the codec -/

/-- The documented behaviour of `serde_json`, `reread m` being what the text of `m` reads back as:
`to_vec` writes one line of UTF-8 with every control character escaped, `from_str` reads it back up
to the metadata, and a text cut short is no JSON value. -/
structure Codec.Lawful (reread : V → Option V) : Prop where
  printable : ∀ nonce r, ∀ b ∈ C.line nonce r, 32 ≤ b
  nonempty : ∀ nonce r, C.line nonce r ≠ []
  reads : ∀ nonce r, ∃ s, decodeUtf8 (C.line nonce r) = some s ∧
    C.parseLine s = (reread r.metadata).map fun m => { r with metadata := m }
  torn : ∀ nonce r p s, p <+: C.line nonce r → p ≠ C.line nonce r → decodeUtf8 p = some s →
    C.parseLine s = none

/-- A metadata value that reads back from its JSON text as itself. -/
def Stable (reread : V → Option V) (m : V) : Prop := reread m = some m

/-- The line reads back as `r`. -/
structure Codec.Reads (l : List UInt8) (r : WalRecord V) : Prop where
  isLine : IsLine l
  text : ∃ s, decodeUtf8 l = some s ∧ s.isEmpty = false ∧ C.parseLine s = some r

/-- The file is the closed lines of the records of `log`. -/
def Codec.Holds (file : List UInt8) (log : List (WalRecord V)) : Prop :=
  ∃ ls, file = unlines ls ∧ List.Forall₂ C.Reads ls log

end

section
variable {V : Type} {C : Codec V} {reread : V → Option V} {log : List (WalRecord V)}

theorem Codec.Lawful.isLine (L : C.Lawful reread) (nonce : C.Nonce) (r : WalRecord V) :
    IsLine (C.line nonce r) := by
  intro b hb
  have hge := L.printable nonce r b hb
  constructor <;> rintro rfl <;> exact absurd hge (by decide)

variable {records : List (WalRecord V)} {file : List UInt8} {r : WalRecord V} {l : List UInt8}
  {ls : List (List UInt8)}

theorem Codec.Lawful.reads_line (L : C.Lawful reread)
    (hr : Stable reread r.metadata) (nonce : C.Nonce) : C.Reads (C.line nonce r) r := by
  obtain ⟨s, hs, hparse⟩ := L.reads nonce r
  refine ⟨L.isLine nonce r, s, hs, decodeUtf8_isEmpty hs (L.nonempty nonce r), ?_⟩
  rw [hparse, hr]
  rfl

theorem Codec.Lawful.reads_linesOf (L : C.Lawful reread)
    (h : ∀ r ∈ records, Stable reread r.metadata) (nonce : Nat → C.Nonce) :
    List.Forall₂ C.Reads (linesOf C nonce records) records := by
  induction records generalizing nonce with
  | nil => exact .nil
  | cons r records ih =>
    exact .cons (L.reads_line (h r mem_cons_self) _)
      (ih (fun r' hr' => h r' (mem_cons_of_mem _ hr')) _)

theorem Codec.Lawful.holds_rewritten (L : C.Lawful reread)
    (h : ∀ r ∈ records, Stable reread r.metadata) (nonce : Nat → C.Nonce) :
    C.Holds (rewritten C nonce records) records :=
  ⟨_, rfl, L.reads_linesOf h nonce⟩

theorem Codec.holds_nil : C.Holds [] [] := ⟨[], rfl, .nil⟩

theorem Codec.Holds.concat (h : C.Holds file log)
    (hr : C.Reads l r) : C.Holds (file ++ (l ++ [newline])) (log ++ [r]) := by
  obtain ⟨ls, rfl, hls⟩ := h
  exact ⟨ls ++ [l], (unlines_concat ls l).symm, rel_append hls (.cons hr .nil)⟩

/-! ## Replay -/

theorem replayLines_append (h : List.Forall₂ C.Reads ls log)
    (rest : List (List UInt8)) : replayLines C (ls ++ rest) = (replayLines C rest).map (log ++ ·) := by
  induction h with
  | nil =>
    rw [nil_append]
    cases replayLines C rest <;> rfl
  | cons hr _ ih =>
    obtain ⟨s, hs, hne, hparse⟩ := hr.text
    rw [cons_append, replayLines, hs]
    simp only [hne, hparse, ih, Bool.false_eq_true, if_false]
    cases replayLines C rest <;> rfl

theorem isLine_of_reads (h : List.Forall₂ C.Reads ls log) : ∀ l ∈ ls, IsLine l := by
  induction h with
  | nil => simp
  | cons hr _ ih =>
    intro l hl
    rcases mem_cons.mp hl with rfl | hl
    · exact hr.isLine
    · exact ih l hl

theorem Codec.Holds.replay_append (h : C.Holds file log) (tail : List UInt8) :
    replay C (file ++ tail) = (replay C tail).map (log ++ ·) := by
  obtain ⟨ls, rfl, hls⟩ := h
  rw [replay, replay, splitLines_unlines_append (isLine_of_reads hls), replayLines_append hls]

theorem Codec.Holds.replay_eq (h : C.Holds file log) : replay C file = .ok log := by
  have hrep := h.replay_append []
  rw [append_nil] at hrep
  rw [hrep]
  simp [replay, splitLines, replayLines, Except.map]

theorem Codec.Lawful.replay_torn (L : C.Lawful reread) (nonce : C.Nonce) (r : WalRecord V)
    {p : List UInt8} (hp : p <+: C.line nonce r) (hne : p ≠ C.line nonce r) {s : String}
    (hs : decodeUtf8 p = some s) : replay C p = .ok [] := by
  rw [replay]
  by_cases hnil : p = []
  · rw [hnil]
    rfl
  · rw [splitLines_of_isLine ((L.isLine nonce r).of_start hp) hnil, replayLines, hs]
    simp [decodeUtf8_isEmpty hs hnil, L.torn nonce r p s hp hne hs]

theorem replay_unparsable (hl : IsLine l) (hne : l ≠ []) {s : String}
    (hs : decodeUtf8 l = some s) (hparse : C.parseLine s = none) (rest : List UInt8) :
    replay C (l ++ newline :: rest) = .ok [] := by
  rw [replay, splitLines_line_append hl, replayLines, hs]
  simp [decodeUtf8_isEmpty hs hne, hparse]

theorem Codec.Reads.replay_eq (h : C.Reads l r) (hne : l ≠ []) :
    replay C l = .ok [r] := by
  obtain ⟨s, hs, hempty, hparse⟩ := h.text
  rw [replay, splitLines_of_isLine h.isLine hne, replayLines, hs]
  simp [hempty, hparse, replayLines, Except.map]

end

end Hyperion.Storage
