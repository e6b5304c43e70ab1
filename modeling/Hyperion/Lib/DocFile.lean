import Hyperion.Lib.HashMap
import Hyperion.Lib.Json.Text
import Hyperion.Lib.Utf8

/-!
# A document in a file

A program that keeps a document in memory and writes it to a file as a whole. The write can fail before it
touches the file, or after it has replaced the file by a part of the new text, the whole of it included.
-/

namespace Hyperion.Lib
open List

structure DocFormat (D : Type) where
  print : D → List UInt8
  parse : List UInt8 → Option D

/-- How a write of the file ends: as intended, before the file was opened, or after this many bytes. -/
inductive WriteEnd
  | completed
  | untouched
  | cut (written : Nat)
deriving DecidableEq, Repr

/-- Whether the write returns `Ok`, and the file afterwards. -/
def writeFile (file : Option (List UInt8)) (bytes : List UInt8) : WriteEnd → Bool × Option (List UInt8)
  | .completed => (true, some bytes)
  | .untouched => (false, file)
  | .cut written => (false, some (bytes.take written))

inductive Contents (D : Type)
  | missing
  | unreadable
  | document (d : D)

section
variable {D : Type}

/-- What a program finds when it opens the file. -/
def DocFormat.contents (P : DocFormat D) : Option (List UInt8) → Contents D
  | none => .missing
  | some bytes =>
    match P.parse bytes with
    | none => .unreadable
    | some d => .document d

/-- The documents that are written read back, and their texts do not when they are cut short. -/
structure DocFormat.Lawful (P : DocFormat D) (written : D → Prop) : Prop where
  parse_print : ∀ d, written d → P.parse (P.print d) = some d
  torn : ∀ d p, written d → p <+: P.print d → p ≠ P.print d → P.parse p = none

variable {P : DocFormat D} {written : D → Prop}

theorem DocFormat.Lawful.mono {written' : D → Prop} (L : P.Lawful written) (h : ∀ d, written' d → written d) :
    P.Lawful written' :=
  ⟨fun d hd => L.parse_print d (h d hd), fun d p hd => L.torn d p (h d hd)⟩

theorem DocFormat.Lawful.contents_print (L : P.Lawful written) {d : D} (hd : written d) :
    P.contents (some (P.print d)) = .document d := by
  rw [contents, L.parse_print d hd]

theorem DocFormat.Lawful.contents_write (L : P.Lawful written) {d : D} (hd : written d)
    (file : Option (List UInt8)) (how : WriteEnd) :
    P.contents (writeFile file (P.print d) how).2 = .document d ∨
      (writeFile file (P.print d) how).1 = false ∧
        (P.contents (writeFile file (P.print d) how).2 = .unreadable ∨
          P.contents (writeFile file (P.print d) how).2 = P.contents file) := by
  cases how with
  | completed => exact .inl (L.contents_print hd)
  | untouched => exact .inr ⟨rfl, .inr rfl⟩
  | cut n =>
    by_cases hwhole : (P.print d).take n = P.print d
    · left
      rw [writeFile, hwhole]
      exact L.contents_print hd
    · refine .inr ⟨rfl, .inl ?_⟩
      rw [writeFile, contents, L.torn d _ hd (List.take_prefix n _) hwhole]

end

/-! ## Maps -/

section
variable {K V : Type} [Ord K] [Std.TransOrd K] [Std.LawfulEqOrd K] [DecidableEq K]

/-- The map with these entries, a later one of the same key in place of an earlier one. -/
def HashMap.ofEntries (entries : List (K × V)) : HashMap K V :=
  entries.foldl (fun m e => m.insert e.1 e.2) ∅

theorem HashMap.get_foldl_insert {entries : List (K × V)} (hkeys : entries.Pairwise fun a b => a.1 ≠ b.1)
    (m : HashMap K V) (k : K) (v : V) : (entries.foldl (fun m e => m.insert e.1 e.2) m)[k]? = some v ↔
      (k, v) ∈ entries ∨ (∀ e ∈ entries, e.1 ≠ k) ∧ m[k]? = some v := by
  induction entries generalizing m with
  | nil => simp
  | cons e entries ih =>
    obtain ⟨hhead, htail⟩ := pairwise_cons.mp hkeys
    rw [foldl_cons, ih htail, HashMap.get_insert]
    by_cases hk : e.1 = k
    · have hnone : ∀ f ∈ entries, f.1 ≠ k := fun f hf heq => hhead f hf (hk.trans heq.symm)
      rw [if_pos hk]
      constructor
      · rintro (hmem | ⟨-, hv⟩)
        · exact absurd rfl (hnone _ hmem)
        · exact .inl (mem_cons.mpr (.inl (Prod.ext hk.symm (Option.some.inj hv).symm)))
      · rintro (hmem | ⟨hall, -⟩)
        · rcases mem_cons.mp hmem with heq | hmem
          · exact .inr ⟨hnone, by rw [← heq]⟩
          · exact absurd rfl (hnone _ hmem)
        · exact absurd hk (hall e mem_cons_self)
    · have hne : (k, v) ≠ e := fun heq => hk (heq ▸ rfl)
      simp [hk, hne]

theorem HashMap.ofEntries_toList (m : HashMap K V) : HashMap.ofEntries m.toList = m := by
  refine Std.ExtTreeMap.ext_getElem? fun k => Option.ext fun v => ?_
  rw [ofEntries, get_foldl_insert m.toList_pairwise_ne, Std.ExtTreeMap.mem_toList_iff_getElem?_eq_some]
  simp

end

/-! ## JSON objects -/

def jsonFormat : DocFormat Json where
  print j := utf8Bytes (Json.render j)
  parse bytes := (decodeUtf8 bytes).bind fun s => Json.parse s.toList

def Json.IsDocument (j : Json) : Prop := (∃ fields, j = .obj fields) ∧ j.depth < recursionLimit

theorem jsonFormat_lawful : jsonFormat.Lawful Json.IsDocument where
  parse_print j hj := by
    simp only [jsonFormat, decodeUtf8_utf8Bytes, Option.bind_some, String.toList_ofList, Json.parse_render,
      if_pos hj.2]
  torn j p hj hp hne := by
    obtain ⟨⟨fields, rfl⟩, -⟩ := hj
    cases hs : decodeUtf8 p with
    | none => simp only [jsonFormat, hs, Option.bind_none]
    | some s =>
      obtain ⟨hpre, hbytes⟩ := decodeUtf8_prefix hp hs
      have hchars : s.toList ≠ Json.render (.obj fields) := by
        intro heq
        rw [heq] at hbytes
        exact hne hbytes
      simp only [jsonFormat, hs, Option.bind_some]
      exact Json.parse_torn_object fields hpre hchars

end Hyperion.Lib
