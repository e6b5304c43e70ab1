import Hyperion.Storage.Durability
import Hyperion.Storage.Reopen

/-!
# Replay of a file that a crash has cut

The records before the last one are closed lines; of the last line any number of bytes may have arrived. A cut inside
a character makes the line reader fail before the record is parsed, and the whole replay with it.
-/

namespace Hyperion.Storage
open Lib Capability List

/-! ## Cuts inside a character -/

theorem decodeUtf8_cut (cs : List Char) (c : Char) {k : Nat} (hpos : 0 < k)
    (hlt : k < (String.utf8EncodeChar c).length) :
    decodeUtf8 (utf8Bytes cs ++ (String.utf8EncodeChar c).take k) = none := by
  have hnil : (String.utf8EncodeChar c).take k ≠ [] := by
    intro h
    rw [take_eq_nil_iff] at h
    rcases h with h | h
    · exact absurd h (Nat.ne_of_gt hpos)
    · rw [h] at hlt
      exact absurd hlt (Nat.not_lt_zero k)
  refine Option.eq_none_iff_forall_ne_some.mpr fun s hs => ?_
  have hbytes := eq_utf8Bytes_of_decodeUtf8 hs
  rw [← append_nil (utf8Bytes s.toList)] at hbytes
  obtain ⟨rest, ⟨-, hrest⟩ | ⟨-, hrest⟩⟩ := utf8Bytes_append_cases hbytes
  · rw [append_nil] at hrest
    cases rest with
    | nil => exact hnil hrest
    | cons d rest =>
      -- the first bytes of `c` would be all bytes of `d`
      have hsplit : String.utf8EncodeChar c ++ [] =
          String.utf8EncodeChar d ++ (utf8Bytes rest ++ (String.utf8EncodeChar c).drop k) := by
        have hcons : utf8Bytes (d :: rest) = String.utf8EncodeChar d ++ utf8Bytes rest := flatMap_cons
        rw [append_nil, ← append_assoc, ← hcons, ← hrest, take_append_drop]
      have hdrop := (utf8EncodeChar_append_inj hsplit).2
      have hempty := (append_eq_nil_iff.mp hdrop.symm).2
      rw [drop_eq_nil_iff] at hempty
      exact absurd hlt (Nat.not_lt.mpr hempty)
  · exact hnil (append_eq_nil_iff.mp hrest.symm).2

section
variable {V : Type} {reread : V → Option V}

/-! ## Reading everything back -/

theorem stable_of_readBack_eq {records more : List (WalRecord V)} (h : readBack reread records = records ++ more) :
    ∀ r ∈ records, Stable reread r.metadata := by
  induction records with
  | nil => exact fun r hr => absurd hr not_mem_nil
  | cons r records ih =>
    rw [readBack] at h
    split at h
    · cases h
    · next m hm =>
      obtain ⟨hhead, htail⟩ := List.cons.inj h
      have hsame : m = r.metadata := congrArg WalRecord.metadata hhead
      exact forall_mem_cons.mpr ⟨hsame ▸ hm, ih htail⟩

theorem readBack_eq_iff (records : List (WalRecord V)) :
    readBack reread records = records ↔ ∀ r ∈ records, Stable reread r.metadata := by
  refine ⟨fun h => ?_, readBack_of_stable⟩
  have happend : readBack reread records = records ++ [] := by rw [h, append_nil]
  exact stable_of_readBack_eq happend

theorem readable_of_stable {records : List (WalRecord V)} (h : ∀ r ∈ records, Stable reread r.metadata) :
    Readable reread records := by
  intro r hr
  have hstable : reread r.metadata = some r.metadata := h r hr
  rw [hstable]
  rfl

variable {C : Codec V}

theorem Codec.Lawful.replay_line (L : C.Lawful reread) (nonce : C.Nonce) (r : WalRecord V) :
    replay C (C.line nonce r) = .ok (readBack reread [r]) := by
  obtain ⟨s, hs, hparse⟩ := L.reads nonce r
  have hne := decodeUtf8_isEmpty hs (L.nonempty nonce r)
  rw [replay, splitLines_of_isLine (L.isLine nonce r) (L.nonempty nonce r), replayLines, hs, readBack]
  simp only [hne, hparse, Bool.false_eq_true, if_false]
  cases reread r.metadata <;> rfl

theorem replay_undecodable {l : List UInt8} (hl : IsLine l) (h : decodeUtf8 l = none) :
    replay C l = .error .wal := by
  have hne : l ≠ [] := by
    rintro rfl
    rw [show decodeUtf8 [] = some "" from decodeUtf8_utf8Bytes []] at h
    cases h
  rw [replay, splitLines_of_isLine hl hne, replayLines, h]

theorem Codec.Lawful.replay_take (L : C.Lawful reread) (nonce : C.Nonce) (r : WalRecord V) (written : Nat) :
    replay C ((C.line nonce r ++ [newline]).take written) =
      if (C.line nonce r).length ≤ written then .ok (readBack reread [r])
      else if (decodeUtf8 ((C.line nonce r).take written)).isSome then .ok [] else .error .wal := by
  by_cases hle : (C.line nonce r).length ≤ written
  · rw [if_pos hle]
    rcases Nat.eq_or_lt_of_le hle with heq | hlt
    · rw [← heq, take_left]
      exact L.replay_line nonce r
    · rw [take_of_length_le (by simpa using hlt)]
      exact (C.wrote_nil.concat nonce r).replay_eq L
  · have hlt : written < (C.line nonce r).length := Nat.lt_of_not_le hle
    rw [if_neg hle, take_append_of_le_length (le_of_lt hlt)]
    cases hdecode : decodeUtf8 ((C.line nonce r).take written) with
    | none => exact replay_undecodable ((L.isLine nonce r).of_start (List.take_prefix _ _)) hdecode
    | some s =>
      refine L.replay_torn nonce r (List.take_prefix _ _) (fun heq => ?_) hdecode
      have hlength := congrArg List.length heq
      rw [length_take] at hlength
      omega

end

/-! ## The file and its cuts -/

section
variable {V : Type} {reread : V → Option V}

/-- The file after `append_and_fsync` of the records, one after the other. -/
def SerdeJson.appended (S : SerdeJson V) (records : List (WalRecord V)) : List UInt8 :=
  records.foldl (fun file r => (appendAndFsync S.plain file () r .completed).2) []

theorem SerdeJson.wrote_appended (S : SerdeJson V) (records : List (WalRecord V)) :
    S.plain.Wrote (S.appended records) records := by
  induction records using List.reverseRecOn with
  | nil => exact S.plain.wrote_nil
  | append_singleton records r ih =>
    rw [SerdeJson.appended, foldl_append]
    exact ih.concat () r

variable {S : SerdeJson V} (L : S.plain.Lawful reread)
include L

/-- **Which cuts are read as they should be**: the records before the last one, and the last one if its text is
complete, are what replay returns exactly if no metadata among them are read back as something else, and the cut is
not inside a character. -/
theorem replay_cut_iff (records : List (WalRecord V)) (r : WalRecord V) (written : Nat) :
    replay S.plain (appendAndFsync S.plain (S.appended records) () r (.failed written)).2 =
        .ok (records ++ if (S.toVec r).length ≤ written then [r] else []) ↔
      (∀ r' ∈ records, Stable reread r'.metadata) ∧ (decodeUtf8 ((S.toVec r).take written)).isSome = true ∧
        ((S.toVec r).length ≤ written → Stable reread r.metadata) := by
  obtain ⟨hread, hhidden⟩ := (S.wrote_appended records).replay_append L ((S.toVec r ++ [newline]).take written)
  have hfile : (appendAndFsync S.plain (S.appended records) () r (.failed written)).2 =
      S.appended records ++ (S.toVec r ++ [newline]).take written := rfl
  rw [hfile]
  by_cases hall : Readable reread records
  · rw [hread hall]
    have hline := L.replay_take () r written
    by_cases hle : (S.toVec r).length ≤ written
    · rw [if_pos hle] at hline
      have hdecodes : (decodeUtf8 ((S.toVec r).take written)).isSome = true := by
        obtain ⟨s, hs, -⟩ := L.reads () r
        have hs : decodeUtf8 (S.toVec r) = some s := hs
        rw [take_of_length_le hle, hs]
        rfl
      rw [hline, if_pos hle, Except.map, ← readBack_append_of_readable hall, Except.ok.injEq, readBack_eq_iff,
        forall_mem_append, forall_mem_singleton, forall_prop_of_true hle, and_iff_right hdecodes]
    · rw [if_neg hle] at hline
      rw [hline, if_neg hle, append_nil]
      split
      · next hdecodes =>
        rw [Except.map, append_nil, Except.ok.injEq, readBack_eq_iff, and_iff_left]
        exact ⟨hdecodes, fun h => absurd h hle⟩
      · next hbad => exact iff_of_false (by simp [Except.map]) fun h => hbad h.2.1
  · rw [hhidden hall, Except.ok.injEq]
    refine iff_of_false (fun heq => ?_) fun h => ?_
    · exact hall (readable_of_stable (stable_of_readBack_eq heq))
    · exact hall (readable_of_stable h.1)

end

/-! ## A letter with an accent -/

def accented : WalRecord Json := ⟨1, none, 1, .str "é", 7⟩

def beforeAccent : List Char :=
  "\x7b\"object_id\":1,\"prev_version\":null,\"new_version\":1,\"metadata\":\"".toList

theorem toVec_accented : ∃ rest, jsonSerde.toVec accented =
    utf8Bytes beforeAccent ++ (String.utf8EncodeChar 'é' ++ rest) := by
  have hrender : Json.render (.obj (recordFields accented)) =
      beforeAccent ++ 'é' :: "\",\"actor_origin\":7\x7d".toList := by decide +kernel
  refine ⟨utf8Bytes "\",\"actor_origin\":7\x7d".toList, ?_⟩
  show utf8Bytes (Json.render (.obj (recordFields accented))) = _
  rw [hrender, utf8Bytes, flatMap_append, flatMap_cons]
  rfl

/-- The first write is read when the second is cut right after its first byte. -/
theorem replay_cut_iff_brace :
    replay jsonSerde.plain (appendAndFsync jsonSerde.plain (jsonSerde.appended [nullRecord 0]) () accented
      (.failed 1)).2 = .ok [nullRecord 0] := by
  have hcut := (replay_cut_iff jsonSerde_lawful [nullRecord 0] accented 1).mpr ⟨?_, ?_, ?_⟩
  · rw [if_neg (one_lt_line accented)] at hcut
    exact hcut
  · exact forall_mem_singleton.mpr rfl
  · obtain ⟨rest, hrest⟩ := toVec_eq_cons accented
    rw [hrest]
    show (decodeUtf8 (utf8Bytes ['\x7b'])).isSome = true
    rw [decodeUtf8_utf8Bytes]
    rfl
  · exact fun _ => rfl

/-- **A cut inside a character fails the replay**: the first write was completed, the second is cut between the two
bytes of a letter, and nothing is read. -/
theorem cut_character_fails_replay :
    (utf8Bytes beforeAccent).length + 1 < (jsonSerde.toVec accented).length ∧
    replay jsonSerde.plain (appendAndFsync jsonSerde.plain (jsonSerde.appended [nullRecord 0]) () accented
      (.failed ((utf8Bytes beforeAccent).length + 1))).2 = .error .wal := by
  obtain ⟨rest, hrest⟩ := toVec_accented
  have hlength : (String.utf8EncodeChar 'é').length = 2 := by decide +kernel
  have hlt : (utf8Bytes beforeAccent).length + 1 < (jsonSerde.toVec accented).length := by
    rw [hrest]
    simp only [length_append, hlength]
    omega
  refine ⟨hlt, ?_⟩
  have htake : (jsonSerde.toVec accented ++ [newline]).take ((utf8Bytes beforeAccent).length + 1) =
      utf8Bytes beforeAccent ++ (String.utf8EncodeChar 'é').take 1 := by
    rw [take_append_of_le_length (le_of_lt hlt), hrest, take_length_add_append,
      take_append_of_le_length (by rw [hlength]; decide)]
  have hline : IsLine (utf8Bytes beforeAccent ++ (String.utf8EncodeChar 'é').take 1) := by
    rw [← htake, take_append_of_le_length (le_of_lt hlt)]
    exact (jsonSerde_lawful.isLine () accented).of_start (List.take_prefix _ _)
  have htail := @replay_undecodable _ jsonSerde.plain _ hline
    (decodeUtf8_cut beforeAccent 'é' Nat.zero_lt_one (by rw [hlength]; decide))
  have hfile : (appendAndFsync jsonSerde.plain (jsonSerde.appended [nullRecord 0]) () accented
      (.failed ((utf8Bytes beforeAccent).length + 1))).2 = jsonSerde.appended [nullRecord 0] ++
        (jsonSerde.toVec accented ++ [newline]).take ((utf8Bytes beforeAccent).length + 1) := rfl
  rw [hfile, htake]
  have hall : Readable jsonReread [nullRecord 0] := forall_mem_singleton.mpr rfl
  rw [((jsonSerde.wrote_appended [nullRecord 0]).replay_append jsonSerde_lawful _).1 hall, htail]
  rfl

end Hyperion.Storage
