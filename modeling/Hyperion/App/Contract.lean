import Hyperion.Identity.Registry
import Hyperion.Lib.Escape
import Hyperion.Lib.Text

/-!
# App contracts

The typed contract of an app, and the strings that carry it inside a signed manifest.
-/

namespace Hyperion.App
open Lib List

inductive InputKind
  | text
  | integer
  | number
  | boolean
  | path
  | choice (options : List String)
deriving DecidableEq, Repr

structure InputField where
  name : String
  kind : InputKind
  description : String
  required : Bool
deriving DecidableEq, Repr

structure AppContract where
  name : String
  owner : String
  keepsData : Bool
  resident : Bool
  goal : String
  fields : List InputField
deriving DecidableEq, Repr

inductive ContractError
  | emptyName
  | invalidName (name : String)
  | missingGoal
  | missingOwner
  | emptyFieldName
  | invalidFieldName (name : String)
  | duplicateField (name : String)
  | emptyChoice (name : String)
  | missingDescription (name : String)
deriving DecidableEq, Repr

/-! ## Validation -/

def contractVersion : String := "hyperion-app/v4"

def maxAppName : Nat := 64

def validateAppName (name : String) : Except ContractError Unit :=
  if name.isEmpty then .error .emptyName
  else if name.utf8ByteSize > maxAppName ∨ name.toList.head? = some '-' ∨
      !(name.toList.all fun c => c.isLower || c.isDigit || c == '-' || c == '_') then
    .error (.invalidName name)
  else .ok ()

/-- `s.trim().is_empty()`. -/
def isBlank (s : String) : Bool := (trim s.toList).isEmpty

/-- The check of one input, after those with the names `seen`. -/
def validateField (seen : List String) (field : InputField) : Except ContractError Unit :=
  if field.name.isEmpty then .error .emptyFieldName
  else if !(field.name.toList.all fun c => c.isLower || c.isDigit || c == '_') then
    .error (.invalidFieldName field.name)
  else if seen.contains field.name then .error (.duplicateField field.name)
  else if isBlank field.description then .error (.missingDescription field.name)
  else if field.kind = .choice [] then .error (.emptyChoice field.name)
  else .ok ()

def validateFields (seen : List String) : List InputField → Except ContractError Unit
  | [] => .ok ()
  | field :: fields =>
    match validateField seen field with
    | .error e => .error e
    | .ok () => validateFields (field.name :: seen) fields

variable (contract : AppContract)

def validateContract : Except ContractError Unit :=
  match validateAppName contract.name with
  | .error e => .error e
  | .ok () =>
    if isBlank contract.goal then .error .missingGoal
    else
      match Identity.UserId.new (String.ofList (trim contract.owner.toList)) with
      | .error _ => .error .missingOwner
      | .ok _ => validateFields [] contract.fields

/-! ## The format -/

def isSpecial (c : Char) : Bool := c == '\\' || c == '|' || c == ','

def escaped (s : String) : List Char := escape isSpecial s.toList

def unescaped (cs : List Char) : String := String.ofList (unescape cs)

def encodeKind : InputKind → List Char
  | .text => "text".toList
  | .integer => "integer".toList
  | .number => "number".toList
  | .boolean => "boolean".toList
  | .path => "path".toList
  | .choice options => "choice:".toList ++ joinWith ',' (options.map escaped)

def decodeKind (raw : List Char) : Option InputKind :=
  match stripStart "choice:".toList raw with
  | some rest =>
    let options := (splitEscaped ',' false rest).map unescaped
    if options.any String.isEmpty then none else some (.choice options)
  | none =>
    if unescaped raw = "text" then some .text
    else if unescaped raw = "integer" then some .integer
    else if unescaped raw = "number" then some .number
    else if unescaped raw = "boolean" then some .boolean
    else if unescaped raw = "path" then some .path
    else none

def encodeHeader : List Char :=
  joinWith '|' [contractVersion.toList, "app".toList, escaped contract.name, escaped contract.owner,
    (if contract.keepsData then "keeps-data" else "stateless").toList,
    (if contract.resident then "resident" else "one-shot").toList, escaped contract.goal]

def encodeField (field : InputField) : List Char :=
  joinWith '|' [contractVersion.toList, "in".toList, escaped field.name, encodeKind field.kind,
    (if field.required then "required" else "optional").toList, escaped field.description]

def encode : List String :=
  String.ofList (encodeHeader contract) :: contract.fields.map fun field => String.ofList (encodeField field)

def decodeFlag (yes no : String) (raw : List Char) : Option Bool :=
  if raw = yes.toList then some true else if raw = no.toList then some false else none

def decodeField (raw : String) : Option InputField :=
  match splitEscaped '|' false raw.toList with
  | [version, marker, name, kind, required, description] => do
    if version ≠ contractVersion.toList ∨ marker ≠ "in".toList then none
    else if (unescaped name).isEmpty then none
    else
      let kind ← decodeKind kind
      let required ← decodeFlag "required" "optional" required
      pure ⟨unescaped name, kind, unescaped description, required⟩
  | _ => none

def decode : List String → Option AppContract
  | [] => none
  | header :: rest =>
    match splitEscaped '|' false header.toList with
    | [version, marker, name, owner, keepsData, resident, goal] => do
      if version ≠ contractVersion.toList ∨ marker ≠ "app".toList then none
      else
        let keepsData ← decodeFlag "keeps-data" "stateless" keepsData
        let resident ← decodeFlag "resident" "one-shot" resident
        if (unescaped name).isEmpty ∨ (unescaped owner).isEmpty then none
        else
          let fields ← rest.mapM decodeField
          pure ⟨unescaped name, unescaped owner, keepsData, resident, unescaped goal, fields⟩
    | _ => none

/-! ## Reading back -/

theorem unescaped_escaped (s : String) : unescaped (escaped s) = s := by
  rw [unescaped, escaped, unescape_escape rfl, String.ofList_toList]

theorem whole_escaped {delim : Char} (h : isSpecial delim = true) (s : String) : Whole delim (escaped s) :=
  Whole.escape rfl h s.toList

/-- No option is empty. -/
def InputKind.words : InputKind → Bool
  | .choice options => !options.any String.isEmpty
  | _ => true

theorem decodeKind_encodeKind {kind : InputKind} (hempty : kind ≠ .choice []) :
    decodeKind (encodeKind kind) = if kind.words then some kind else none := by
  cases kind with
  | choice options =>
    have hne : options.map escaped ≠ [] := fun h => hempty (by rw [map_eq_nil_iff.mp h])
    have hsplit : (splitEscaped ',' false (joinWith ',' (options.map escaped))).map unescaped = options := by
      rw [splitEscaped_joinWith (by decide) hne, map_map]
      · simp [Function.comp_def, unescaped_escaped]
      · intro piece hpiece
        obtain ⟨option, -, rfl⟩ := mem_map.mp hpiece
        exact whole_escaped rfl option
    have hstrip : stripStart "choice:".toList (encodeKind (.choice options)) =
        some (joinWith ',' (options.map escaped)) := stripStart_append _ _
    have hwords : (InputKind.choice options).words = !options.any String.isEmpty := rfl
    simp only [decodeKind, hstrip, hsplit, hwords, Bool.not_eq_true']
    split <;> simp_all
  | _ => decide +kernel

theorem whole_encodeKind (kind : InputKind) : Whole '|' (encodeKind kind) := by
  have hjoin : ∀ options : List String, Whole '|' (joinWith ',' (options.map escaped)) := by
    intro options
    induction options with
    | nil => exact .nil
    | cons option options ih =>
      cases options with
      | nil => exact whole_escaped rfl option
      | cons next options =>
        exact (whole_escaped rfl option).append ((Whole.singleton (by decide) (by decide)).append ih)
  cases kind with
  | choice options => exact (Whole.plain (forall_mem_of_all (by decide +kernel))).append (hjoin options)
  | _ => exact .plain (forall_mem_of_all (by decide +kernel))

theorem decodeFlag_eq (yes no : String) (hne : yes ≠ no) (b : Bool) :
    decodeFlag yes no (if b then yes else no).toList = some b := by
  cases b with
  | true => exact if_pos rfl
  | false =>
    have hlist : no.toList ≠ yes.toList := fun h => hne (String.toList_injective h).symm
    exact (if_neg hlist).trans (if_pos rfl)

theorem whole_flag {yes no : String} (hyes : ∀ c ∈ yes.toList, c ≠ '\\' ∧ c ≠ '|')
    (hno : ∀ c ∈ no.toList, c ≠ '\\' ∧ c ≠ '|') (b : Bool) : Whole '|' (if b then yes else no).toList := by
  cases b with
  | true => exact .plain hyes
  | false => exact .plain hno

theorem whole_contractVersion : Whole '|' contractVersion.toList := .plain (forall_mem_of_all (by decide +kernel))

variable {field : InputField} {seen : List String}

theorem decodeField_encodeField (hname : field.name.isEmpty = false) (hempty : field.kind ≠ .choice []) :
    decodeField (String.ofList (encodeField field)) = if field.kind.words then some field else none := by
  have hsplit : splitEscaped '|' false (String.ofList (encodeField field)).toList =
      [contractVersion.toList, "in".toList, escaped field.name, encodeKind field.kind,
        (if field.required then "required" else "optional").toList, escaped field.description] := by
    rw [String.toList_ofList, encodeField]
    refine splitEscaped_joinWith (by decide) (cons_ne_nil _ _) ?_
    intro piece hpiece
    simp only [mem_cons, not_mem_nil, or_false] at hpiece
    rcases hpiece with rfl | rfl | rfl | rfl | rfl | rfl
    · exact whole_contractVersion
    · exact .plain (forall_mem_of_all (by decide +kernel))
    · exact whole_escaped rfl _
    · exact whole_encodeKind _
    · exact whole_flag (forall_mem_of_all (by decide)) (forall_mem_of_all (by decide)) _
    · exact whole_escaped rfl _
  unfold decodeField
  rw [hsplit]
  simp only [ne_eq, not_true_eq_false, or_self, if_false, unescaped_escaped, hname, Bool.false_eq_true,
    decodeKind_encodeKind hempty, decodeFlag_eq "required" "optional" (by decide)]
  cases field.kind.words <;> rfl

def AppContract.OffersWords : Prop :=
  ∀ field ∈ contract.fields, ∀ options, field.kind = .choice options → "" ∉ options

theorem validateField_eq_ok (h : validateField seen field = .ok ()) :
    field.name.isEmpty = false ∧ field.kind ≠ .choice [] := by
  unfold validateField at h
  split at h
  · cases h
  · next hname =>
    split at h
    · cases h
    · split at h
      · cases h
      · split at h
        · cases h
        · split at h
          · cases h
          · next hkind => exact ⟨Bool.eq_false_iff.mpr hname, hkind⟩

theorem validateFields_eq_ok {fields : List InputField} (h : validateFields seen fields = .ok ()) :
    ∀ field ∈ fields, field.name.isEmpty = false ∧ field.kind ≠ .choice [] := by
  induction fields generalizing seen with
  | nil => exact fun field hmem => absurd hmem not_mem_nil
  | cons field fields ih =>
    rw [validateFields] at h
    split at h
    · cases h
    · next hfield =>
      intro f hf
      rcases mem_cons.mp hf with rfl | hf
      · exact validateField_eq_ok hfield
      · exact ih h f hf

theorem validateContract_eq_ok {contract : AppContract} (h : validateContract contract = .ok ()) :
    contract.name.isEmpty = false ∧ contract.owner.isEmpty = false ∧
      ∀ field ∈ contract.fields, field.name.isEmpty = false ∧ field.kind ≠ .choice [] := by
  unfold validateContract at h
  split at h
  · cases h
  · next hname =>
    split at h
    · cases h
    · split at h
      · cases h
      · next owner howner =>
        refine ⟨?_, ?_, validateFields_eq_ok h⟩
        · unfold validateAppName at hname
          split at hname
          · cases hname
          · next hempty => exact Bool.eq_false_iff.mpr hempty
        · refine Bool.eq_false_iff.mpr fun hempty => ?_
          rw [String.isEmpty_iff] at hempty
          have hnew : Identity.UserId.new (String.ofList (trim "".toList)) = .error .empty := rfl
          rw [hempty, hnew] at howner
          cases howner

theorem offersWords_iff : contract.OffersWords ↔ (contract.fields.all fun field => field.kind.words) = true := by
  rw [AppContract.OffersWords, all_eq_true]
  refine forall₂_congr fun field _ => ?_
  cases field.kind with
  | choice options =>
    simp only [InputKind.words, InputKind.choice.injEq, forall_eq', Bool.not_eq_true', any_eq_false,
      String.isEmpty_iff]
    exact ⟨fun h option hmem heq => h (heq ▸ hmem), fun h hmem => h "" hmem rfl⟩
  | _ => simp [InputKind.words]

theorem mapM_decodeField {fields : List InputField}
    (hvalid : ∀ field ∈ fields, field.name.isEmpty = false ∧ field.kind ≠ .choice []) :
    (fields.map fun field => String.ofList (encodeField field)).mapM decodeField =
      if fields.all fun field => field.kind.words then some fields else none := by
  induction fields with
  | nil => rfl
  | cons field fields ih =>
    obtain ⟨hname, hempty⟩ := hvalid field mem_cons_self
    rw [map_cons, mapM_cons, decodeField_encodeField hname hempty, ih fun f hf => hvalid f (mem_cons_of_mem _ hf),
      all_cons]
    cases field.kind.words <;> cases fields.all fun field => field.kind.words <;> rfl

/-- **A valid contract is read back exactly if no input offers an empty choice.** -/
theorem decode_encode_eq {contract : AppContract} (h : validateContract contract = .ok ()) :
    decode (encode contract) =
      if contract.fields.all fun field => field.kind.words then some contract else none := by
  obtain ⟨hname, howner, hvalid⟩ := validateContract_eq_ok h
  have hsplit : splitEscaped '|' false (String.ofList (encodeHeader contract)).toList =
      [contractVersion.toList, "app".toList, escaped contract.name, escaped contract.owner,
        (if contract.keepsData then "keeps-data" else "stateless").toList,
        (if contract.resident then "resident" else "one-shot").toList, escaped contract.goal] := by
    rw [String.toList_ofList, encodeHeader]
    refine splitEscaped_joinWith (by decide) (cons_ne_nil _ _) ?_
    intro piece hpiece
    simp only [mem_cons, not_mem_nil, or_false] at hpiece
    rcases hpiece with rfl | rfl | rfl | rfl | rfl | rfl | rfl
    · exact whole_contractVersion
    · exact .plain (forall_mem_of_all (by decide +kernel))
    · exact whole_escaped rfl _
    · exact whole_escaped rfl _
    · exact whole_flag (forall_mem_of_all (by decide)) (forall_mem_of_all (by decide)) _
    · exact whole_flag (forall_mem_of_all (by decide)) (forall_mem_of_all (by decide)) _
    · exact whole_escaped rfl _
  unfold decode encode
  dsimp only
  rw [hsplit]
  simp only [ne_eq, not_true_eq_false, or_self, if_false, unescaped_escaped, hname, howner, Bool.false_eq_true,
    decodeFlag_eq "keeps-data" "stateless" (by decide), decodeFlag_eq "resident" "one-shot" (by decide),
    mapM_decodeField hvalid]
  cases contract.fields.all fun field => field.kind.words <;> rfl

theorem decode_encode {contract : AppContract} (h : validateContract contract = .ok ())
    (hwords : contract.OffersWords) : decode (encode contract) = some contract := by
  rw [decode_encode_eq h, if_pos ((offersWords_iff contract).mp hwords)]

/-- **Two valid contracts have different manifests**, unless an input offers an empty choice. -/
theorem encode_ne {c c' : AppContract} (h : validateContract c = .ok ()) (hwords : c.OffersWords)
    (h' : validateContract c' = .ok ()) (hwords' : c'.OffersWords) (hne : c ≠ c') : encode c ≠ encode c' := by
  intro heq
  have hread := decode_encode h hwords
  rw [heq, decode_encode h' hwords'] at hread
  exact hne (Option.some.inj hread).symm

theorem encode_ne_goal : encode ⟨"a", "b", false, false, "|", []⟩ ≠ encode ⟨"a", "b", false, false, "\\|", []⟩ :=
  encode_ne (by decide +kernel) nofun (by decide +kernel) nofun (by decide)

end Hyperion.App
