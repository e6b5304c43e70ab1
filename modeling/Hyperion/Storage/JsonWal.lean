import Hyperion.Lib.Json.Text
import Hyperion.Storage.Wal

/-!
# A log of JSON records

The codec of the log at the JSON values of `Hyperion.Lib.Json`: the compact text of a record as
`serde_json` writes it, fields in the order of the struct. It is lawful: metadata read back as
themselves unless they are nested deeper than the reader's limit allows inside a record.
-/

namespace Hyperion.Storage
open Lib

def jsonOfNat (n : Nat) : Json := .int n

def natOfJson : Json → Option Nat
  | .int n => if 0 ≤ n then some n.toNat else none
  | _ => none

def jsonOfVersion : Option VersionId → Json
  | none => .null
  | some v => jsonOfNat v

def versionOfJson : Json → Option (Option VersionId)
  | .null => some none
  | j => (natOfJson j).map some

variable (r : WalRecord Json)

def recordFields : List (String × Json) :=
  [("object_id", jsonOfNat r.objectId), ("prev_version", jsonOfVersion r.prevVersion),
    ("new_version", jsonOfNat r.newVersion), ("metadata", r.metadata),
    ("actor_origin", jsonOfNat r.actorOrigin)]

def recordOfFields (fields : List (String × Json)) : Option (WalRecord Json) := do
  let objectId ← (fields.lookup "object_id").bind natOfJson
  let prevVersion ← versionOfJson ((fields.lookup "prev_version").getD .null)
  let newVersion ← (fields.lookup "new_version").bind natOfJson
  let metadata ← fields.lookup "metadata"
  let actorOrigin ← (fields.lookup "actor_origin").bind natOfJson
  some { objectId, prevVersion, newVersion, metadata, actorOrigin }

def recordOfJson : Json → Option (WalRecord Json)
  | .obj fields => recordOfFields fields
  | _ => none

def jsonSerde : SerdeJson Json where
  toVec r := utf8Bytes (Json.render (.obj (recordFields r)))
  fromStr s := (Json.parse s.toList).bind recordOfJson

/-- What a value reads back as when it stands in a record, one level down. -/
def jsonReread (j : Json) : Option Json :=
  if j.depth + 1 < Json.recursionLimit then some j else none

theorem natOfJson_jsonOfNat (n : Nat) : natOfJson (jsonOfNat n) = some n := by
  simp [natOfJson, jsonOfNat]

theorem versionOfJson_jsonOfVersion (v : Option VersionId) : versionOfJson (jsonOfVersion v) = some v := by
  cases v with
  | none => rfl
  | some v => exact congrArg (Option.map some) (natOfJson_jsonOfNat v)

theorem recordOfFields_recordFields : recordOfFields (recordFields r) = some r := by
  simp [recordOfFields, recordFields, List.lookup, natOfJson_jsonOfNat, versionOfJson_jsonOfVersion]

theorem depth_recordFields : Json.depth (.obj (recordFields r)) = r.metadata.depth + 1 := by
  have hnat : ∀ n, Json.depth (jsonOfNat n) = 0 := fun n => by simp [jsonOfNat, Json.depth]
  have hversion : ∀ v, Json.depth (jsonOfVersion v) = 0 := by
    rintro (_ | v)
    · simp [jsonOfVersion, Json.depth]
    · exact hnat v
  simp [Json.depth, Json.depthFields, Json.depthField, recordFields, hnat, hversion, Nat.add_comm]

theorem parse_recordFields : (Json.parse (Json.render (.obj (recordFields r)))).bind recordOfJson =
      (jsonReread r.metadata).map fun m => { r with metadata := m } := by
  rw [Json.parse_render, depth_recordFields, jsonReread]
  split
  · exact recordOfFields_recordFields r
  · rfl

theorem jsonSerde_lawful : jsonSerde.plain.Lawful jsonReread where
  printable nonce r b hb := by
    obtain ⟨c, hc, hb⟩ := List.mem_flatMap.mp hb
    exact le_of_mem_utf8EncodeChar (Json.printable_render _ c hc) b hb
  nonempty nonce r h := by
    have hnil : utf8Bytes (Json.render (.obj (recordFields r))) ++ [] = utf8Bytes [] := by
      rw [List.append_nil]
      exact h
    have hpre := prefix_of_utf8Bytes_append hnil
    rw [List.prefix_nil, Json.render] at hpre
    cases hpre
  reads nonce r := by
    refine ⟨_, decodeUtf8_utf8Bytes _, ?_⟩
    rw [← parse_recordFields r, SerdeJson.plain, jsonSerde]
    simp
  torn nonce r p s hp hne hs := by
    obtain ⟨hpre, hbytes⟩ := decodeUtf8_prefix hp hs
    have hchars : s.toList ≠ Json.render (.obj (recordFields r)) := by
      intro heq
      rw [heq] at hbytes
      exact hne hbytes
    show (Json.parse s.toList).bind recordOfJson = none
    rw [Json.parse_torn_object _ hpre hchars]
    rfl

theorem toVec_eq_cons : ∃ rest, jsonSerde.toVec r = 123 :: 34 :: rest := ⟨_, rfl⟩

theorem fromStr_brace_line : ∃ s,
    decodeUtf8 (123 :: jsonSerde.toVec r) = some s ∧ jsonSerde.fromStr s = none := by
  have hbytes : 123 :: jsonSerde.toVec r = utf8Bytes ('{' :: Json.render (.obj (recordFields r))) :=
    rfl
  refine ⟨_, hbytes ▸ decodeUtf8_utf8Bytes _, ?_⟩
  simp only [jsonSerde, String.toList_ofList, Json.render, Json.parse_two_braces, Option.bind_none]

def nested : Nat → Json
  | 0 => .arr []
  | n + 1 => .arr [nested n]

theorem depth_nested (n : Nat) : (nested n).depth = n + 1 := by
  induction n with
  | zero => simp [nested, Json.depth, Json.depthItems]
  | succ n ih => simp [nested, Json.depth, Json.depthItems, ih, Nat.add_comm]

theorem jsonReread_nested : jsonReread (nested 126) = none := by
  rw [jsonReread, depth_nested]
  rfl

end Hyperion.Storage
