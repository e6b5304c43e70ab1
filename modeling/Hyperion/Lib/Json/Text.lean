import Hyperion.Lib.Json.Lexeme

/-!
# JSON values and their compact text

`render` prints a value without blanks; `parseValue` reads one from the front of a text, refusing
arrays and objects nested as deep as its limit. Floating-point numbers are those with an integral
value. On the text of a value the reader gives the value back, unless it is nested too deep
(`parse_render`); and the text of an object cut short is no value (`parse_torn_object`).
-/

namespace Hyperion.Lib
open List Option

inductive Json
  | null
  | bool (b : Bool)
  | int (n : Int)
  | float (n : Int)
  | str (s : String)
  | arr (items : List Json)
  | obj (fields : List (String × Json))

namespace Json

mutual
def render : Json → List Char
  | .null => ['n', 'u', 'l', 'l']
  | .bool true => ['t', 'r', 'u', 'e']
  | .bool false => ['f', 'a', 'l', 's', 'e']
  | .int n => renderInt n
  | .float n => renderInt n ++ ['.', '0']
  | .str s => renderString s.toList
  | .arr items => '[' :: (renderItems items ++ [']'])
  | .obj fields => '{' :: (renderFields fields ++ ['}'])
def renderItems : List Json → List Char
  | [] => []
  | j :: js => render j ++ (if js.isEmpty then [] else ',' :: renderItems js)
def renderFields : List (String × Json) → List Char
  | [] => []
  | f :: fs => renderField f ++ (if fs.isEmpty then [] else ',' :: renderFields fs)
def renderField : String × Json → List Char
  | (k, v) => renderString k.toList ++ ':' :: render v
end

def expect : List Char → List Char → Option (List Char)
  | [], cs => some cs
  | _ :: _, [] => none
  | p :: ps, c :: cs => if p = c then expect ps cs else none

def parseNumber (cs : List Char) : Option (Json × List Char) := do
  let (n, rest) ← parseInt cs
  if rest.head? = some '.' then (expect ['.', '0'] rest).map fun rest => (.float n, rest)
  else some (.int n, rest)

def parseStr (cs : List Char) : Option (String × List Char) :=
  (parseString cs.length cs).map fun (s, rest) => (String.ofList s, rest)

mutual
/-- Reads a value, `depth` being the nesting still allowed; the fuel bounds the size of the value. -/
def parseValue : Nat → Nat → List Char → Option (Json × List Char)
  | 0, _, _ => none
  | _ + 1, _, [] => none
  | fuel + 1, depth, c :: cs =>
    if c = '"' then (parseStr cs).map fun (s, rest) => (.str s, rest)
    else if c = '[' then
      if depth ≤ 1 then none
      else if cs.head? = some ']' then some (.arr [], cs.tail)
      else (parseItems fuel (depth - 1) cs).map fun (items, rest) => (.arr items, rest)
    else if c = '{' then
      if depth ≤ 1 then none
      else if cs.head? = some '}' then some (.obj [], cs.tail)
      else (parseFields fuel (depth - 1) cs).map fun (fields, rest) => (.obj fields, rest)
    else if c = 'n' then (expect ['u', 'l', 'l'] cs).map fun rest => (.null, rest)
    else if c = 't' then (expect ['r', 'u', 'e'] cs).map fun rest => (.bool true, rest)
    else if c = 'f' then (expect ['a', 'l', 's', 'e'] cs).map fun rest => (.bool false, rest)
    else parseNumber (c :: cs)
def parseItems : Nat → Nat → List Char → Option (List Json × List Char)
  | 0, _, _ => none
  | fuel + 1, depth, cs => do
    let (j, rest) ← parseValue fuel depth cs
    if rest.head? = some ',' then
      (parseItems fuel depth rest.tail).map fun (js, rest) => (j :: js, rest)
    else if rest.head? = some ']' then some ([j], rest.tail)
    else none
def parseFields : Nat → Nat → List Char → Option (List (String × Json) × List Char)
  | 0, _, _ => none
  | fuel + 1, depth, cs => do
    let rest ← expect ['"'] cs
    let (k, rest) ← parseStr rest
    let rest ← expect [':'] rest
    let (j, rest) ← parseValue fuel depth rest
    if rest.head? = some ',' then
      (parseFields fuel depth rest.tail).map fun (fs, rest) => ((k, j) :: fs, rest)
    else if rest.head? = some '}' then some ([(k, j)], rest.tail)
    else none
end

def recursionLimit : Nat := 128

def parse (cs : List Char) : Option Json :=
  match parseValue (cs.length + 1) recursionLimit cs with
  | some (j, []) => some j
  | _ => none

mutual
def size : Json → Nat
  | .null => 1
  | .bool _ => 1
  | .int _ => 1
  | .float _ => 1
  | .str _ => 1
  | .arr items => 1 + sizeItems items
  | .obj fields => 1 + sizeFields fields
def sizeItems : List Json → Nat
  | [] => 0
  | j :: js => 1 + size j + sizeItems js
def sizeFields : List (String × Json) → Nat
  | [] => 0
  | f :: fs => 1 + sizeField f + sizeFields fs
def sizeField : String × Json → Nat
  | (_, v) => size v
end

mutual
def depth : Json → Nat
  | .null => 0
  | .bool _ => 0
  | .int _ => 0
  | .float _ => 0
  | .str _ => 0
  | .arr items => 1 + depthItems items
  | .obj fields => 1 + depthFields fields
def depthItems : List Json → Nat
  | [] => 0
  | j :: js => max (depth j) (depthItems js)
def depthFields : List (String × Json) → Nat
  | [] => 0
  | f :: fs => max (depthField f) (depthFields fs)
def depthField : String × Json → Nat
  | (_, v) => depth v
end

/-! ## Tokens -/

theorem expect_append {p cs rest : List Char} (h : expect p cs = some rest) (more : List Char) :
    expect p (cs ++ more) = some (rest ++ more) := by
  induction p generalizing cs with
  | nil =>
    cases h
    rfl
  | cons c p ih =>
    cases cs with
    | nil => cases h
    | cons c' cs =>
      rw [cons_append, expect]
      rw [expect] at h
      split at h
      · next heq => rw [if_pos heq, ih h]
      · cases h

theorem length_le_length_flatMap_escape (s : List Char) : s.length ≤ (s.flatMap escape).length := by
  induction s with
  | nil => exact Nat.zero_le _
  | cons c s ih =>
    have hc : 1 ≤ (escape c).length := by
      unfold escape
      split_ifs <;> simp
    rw [flatMap_cons, length_append, length_cons]
    omega

theorem parseStr_render (s : String) (rest : List Char) :
    parseStr (s.toList.flatMap escape ++ '"' :: rest) = some (s, rest) := by
  have hlen := length_le_length_flatMap_escape s.toList
  rw [parseStr, parseString_renderString]
  · simp
  · simp only [List.length_append, List.length_cons]
    omega

variable {cs rest : List Char}

theorem parseStr_append {s : String} (h : parseStr cs = some (s, rest))
    (more : List Char) : parseStr (cs ++ more) = some (s, rest ++ more) := by
  obtain ⟨⟨s', r⟩, hs, heq⟩ := Option.map_eq_some_iff.mp h
  cases heq
  rw [parseStr, parseString_append hs (by simp) more]
  rfl

def Follows (rest : List Char) : Prop := Stops rest ∧ rest.head? ≠ some '.'

theorem follows_cons {c : Char} (hc : digitVal c = none ∧ c ≠ '.') (rest : List Char) :
    Follows (c :: rest) :=
  ⟨by rintro c' ⟨⟩; exact hc.1, by simpa using hc.2⟩

theorem follows_nil : Follows [] := ⟨by rintro c ⟨⟩, by simp⟩

theorem follows_comma (rest : List Char) : Follows (',' :: rest) := follows_cons (by decide) rest

theorem follows_bracket (rest : List Char) : Follows (']' :: rest) := follows_cons (by decide) rest

theorem follows_brace (rest : List Char) : Follows ('}' :: rest) := follows_cons (by decide) rest

theorem parseNumber_int (n : Int) {rest : List Char} (h : Follows rest) :
    parseNumber (renderInt n ++ rest) = some (.int n, rest) := by
  simp [parseNumber, parseInt_renderInt n h.1, h.2]

theorem parseNumber_float (n : Int) (rest : List Char) :
    parseNumber (renderInt n ++ ('.' :: '0' :: rest)) = some (.float n, rest) := by
  have hstops : Stops ('.' :: '0' :: rest) := by
    rintro c ⟨⟩
    decide
  simp [parseNumber, parseInt_renderInt n hstops, expect]

theorem parseNumber_append {j : Json} (h : parseNumber cs = some (j, rest))
    (hne : rest ≠ []) (more : List Char) : parseNumber (cs ++ more) = some (j, rest ++ more) := by
  simp only [parseNumber, Option.bind_eq_bind, Option.bind_eq_some_iff] at h ⊢
  obtain ⟨⟨n, r⟩, hn, h⟩ := h
  have hr : r ≠ [] := by
    rintro rfl
    simp only [List.head?_nil, reduceCtorEq, if_false, Option.some.injEq, Prod.mk.injEq] at h
    exact hne h.2.symm
  refine ⟨(n, r ++ more), parseInt_append hn hr more, ?_⟩
  have hhead : (r ++ more).head? = r.head? := List.head?_append_of_ne_nil _ hr
  simp only [hhead]
  split at h
  · next hdot =>
    obtain ⟨r', hr', heq⟩ := Option.map_eq_some_iff.mp h
    cases heq
    rw [if_pos hdot, expect_append hr' more]
    rfl
  · next hdot =>
    cases h
    rw [if_neg hdot]

/-! ## The reader, case by case -/

section
variable (fuel d : Nat) (cs : List Char)

theorem parseValue_quote : parseValue (fuel + 1) d ('"' :: cs) =
    (parseStr cs).map fun (s, rest) => (.str s, rest) := by
  simp [parseValue]

theorem parseValue_bracket : parseValue (fuel + 1) d ('[' :: cs) =
    if d ≤ 1 then none else if cs.head? = some ']' then some (.arr [], cs.tail)
    else (parseItems fuel (d - 1) cs).map fun (items, rest) => (.arr items, rest) := by
  simp [parseValue]

theorem parseValue_brace : parseValue (fuel + 1) d ('{' :: cs) =
    if d ≤ 1 then none else if cs.head? = some '}' then some (.obj [], cs.tail)
    else (parseFields fuel (d - 1) cs).map fun (fields, rest) => (.obj fields, rest) := by
  simp [parseValue]

theorem parseValue_number {c : Char} (hc : c = '-' ∨ digitVal c ≠ none) :
    parseValue (fuel + 1) d (c :: cs) = parseNumber (c :: cs) := by
  have hne : ∀ c', digitVal c' = none ∧ c' ≠ '-' → c ≠ c' := by
    rintro c' ⟨hdigit, hminus⟩ rfl
    exact hc.elim hminus fun h => h hdigit
  rw [parseValue, if_neg (hne _ (by decide)), if_neg (hne _ (by decide)), if_neg (hne _ (by decide)),
    if_neg (hne _ (by decide)), if_neg (hne _ (by decide)), if_neg (hne _ (by decide))]

end

/-! ## Reading back what was printed -/

mutual
theorem size_le_length : ∀ j : Json, j.size ≤ (render j).length
  | .null => by simp [size, render]
  | .bool true => by simp [size, render]
  | .bool false => by simp [size, render]
  | .int n => by
    obtain ⟨c, cs, hcs, -⟩ := renderInt_head n
    simp [size, render, hcs]
  | .float n => by simp [size, render]
  | .str s => by simp [size, render, renderString]
  | .arr items => by
    have h := sizeItems_le_length items
    simp only [size, render, length_cons, length_append, length_nil]
    omega
  | .obj fields => by
    have h := sizeFields_le_length fields
    simp only [size, render, length_cons, length_append, length_nil]
    omega
theorem sizeItems_le_length : ∀ js : List Json, sizeItems js ≤ (renderItems js).length + 1
  | [] => by simp [sizeItems]
  | j :: js => by
    have hj := size_le_length j
    have hjs := sizeItems_le_length js
    cases js with
    | nil => simpa [sizeItems, renderItems] using by omega
    | cons j' js =>
      rw [sizeItems, renderItems]
      simp only [isEmpty_cons, Bool.false_eq_true, if_false, length_append, length_cons]
      omega
theorem sizeFields_le_length : ∀ fs : List (String × Json), sizeFields fs ≤ (renderFields fs).length + 1
  | [] => by simp [sizeFields]
  | f :: fs => by
    have hf := sizeField_le_length f
    have hfs := sizeFields_le_length fs
    cases fs with
    | nil => simpa [sizeFields, renderFields] using by omega
    | cons f' fs =>
      rw [sizeFields, renderFields]
      simp only [isEmpty_cons, Bool.false_eq_true, if_false, length_append, length_cons]
      omega
theorem sizeField_le_length : ∀ f : String × Json, sizeField f ≤ (renderField f).length
  | (k, v) => by
    have hv := size_le_length v
    simp only [sizeField, renderField, length_append, length_cons]
    omega
end

theorem render_head_ne_bracket (j : Json) (rest : List Char) : (render j ++ rest).head? ≠ some ']' := by
  have hint : ∀ n : Int, ∃ c cs, renderInt n = c :: cs ∧ c ≠ ']' := by
    intro n
    obtain ⟨c, cs, hcs, hc⟩ := renderInt_head n
    refine ⟨c, cs, hcs, ?_⟩
    rintro rfl
    revert hc
    decide
  cases j with
  | null => simp [render]
  | bool b => cases b <;> simp [render]
  | int n | float n =>
    obtain ⟨c, cs, hcs, hne⟩ := hint n
    simpa [render, hcs] using hne
  | str s => simp [render, renderString]
  | arr items => simp [render]
  | obj fields => simp [render]

mutual
theorem parseValue_render : ∀ (j : Json) (fuel d : Nat) (rest : List Char), j.size ≤ fuel → 0 < d →
    Follows rest → parseValue fuel d (render j ++ rest) = if j.depth < d then some (j, rest) else none
  | j, 0, d, rest, hfuel, hd, hrest => by cases j <;> simp [size] at hfuel
  | .null, fuel + 1, d, rest, hfuel, hd, hrest => by simp [render, parseValue, expect, depth, hd]
  | .bool true, fuel + 1, d, rest, hfuel, hd, hrest => by
    simp [render, parseValue, expect, depth, hd]
  | .bool false, fuel + 1, d, rest, hfuel, hd, hrest => by
    simp [render, parseValue, expect, depth, hd]
  | .int n, fuel + 1, d, rest, hfuel, hd, hrest => by
    obtain ⟨c, cs, hcs, hc⟩ := renderInt_head n
    have hnum := parseNumber_int n hrest
    rw [render, depth, if_pos hd]
    rw [hcs, cons_append] at hnum ⊢
    rw [parseValue_number _ _ _ hc, hnum]
  | .float n, fuel + 1, d, rest, hfuel, hd, hrest => by
    obtain ⟨c, cs, hcs, hc⟩ := renderInt_head n
    have hnum := parseNumber_float n rest
    have htext : render (.float n) ++ rest = renderInt n ++ ('.' :: '0' :: rest) := by simp [render]
    rw [htext, depth, if_pos hd]
    rw [hcs, cons_append] at hnum ⊢
    rw [parseValue_number _ _ _ hc, hnum]
  | .str s, fuel + 1, d, rest, hfuel, hd, hrest => by
    have htext : render (.str s) ++ rest = '"' :: (s.toList.flatMap escape ++ '"' :: rest) := by
      simp [render, renderString]
    rw [htext, parseValue_quote, parseStr_render, depth, if_pos hd]
    rfl
  | .arr [], fuel + 1, d, rest, hfuel, hd, hrest => by
    have htext : render (.arr []) ++ rest = '[' :: (']' :: rest) := by simp [render, renderItems]
    rw [htext, parseValue_bracket]
    by_cases hdeep : d ≤ 1
    · simp [hdeep, depth, depthItems]
    · have hok : 1 < d := Nat.lt_of_not_le hdeep
      simp [hdeep, hok, depth, depthItems]
  | .arr (j :: js), fuel + 1, d, rest, hfuel, hd, hrest => by
    have htext : render (.arr (j :: js)) ++ rest =
        '[' :: (renderItems (j :: js) ++ (']' :: rest)) := by simp [render]
    have hhead : (renderItems (j :: js) ++ (']' :: rest)).head? ≠ some ']' := by
      rw [renderItems, append_assoc]
      exact render_head_ne_bracket j _
    rw [htext, parseValue_bracket, if_neg hhead]
    by_cases hdeep : d ≤ 1
    · rw [if_pos hdeep, if_neg (by rw [depth]; omega)]
    · rw [if_neg hdeep, parseItems_render j js fuel _ rest (by rw [size] at hfuel; omega) (by omega),
        depth]
      by_cases hok : depthItems (j :: js) < d - 1
      · rw [if_pos hok, if_pos (by omega)]
        rfl
      · rw [if_neg hok, if_neg (by omega)]
        rfl
  | .obj [], fuel + 1, d, rest, hfuel, hd, hrest => by
    have htext : render (.obj []) ++ rest = '{' :: ('}' :: rest) := by simp [render, renderFields]
    rw [htext, parseValue_brace]
    by_cases hdeep : d ≤ 1
    · simp [hdeep, depth, depthFields]
    · have hok : 1 < d := Nat.lt_of_not_le hdeep
      simp [hdeep, hok, depth, depthFields]
  | .obj ((k, v) :: fs), fuel + 1, d, rest, hfuel, hd, hrest => by
    have htext : render (.obj ((k, v) :: fs)) ++ rest =
        '{' :: (renderFields ((k, v) :: fs) ++ ('}' :: rest)) := by simp [render]
    have hhead : (renderFields ((k, v) :: fs) ++ ('}' :: rest)).head? ≠ some '}' := by
      simp [renderFields, renderField, renderString]
    rw [htext, parseValue_brace, if_neg hhead]
    by_cases hdeep : d ≤ 1
    · rw [if_pos hdeep, if_neg (by rw [depth]; omega)]
    · rw [if_neg hdeep, parseFields_render (k, v) fs fuel _ rest (by rw [size] at hfuel; omega)
        (by omega), depth]
      by_cases hok : depthFields ((k, v) :: fs) < d - 1
      · rw [if_pos hok, if_pos (by omega)]
        rfl
      · rw [if_neg hok, if_neg (by omega)]
        rfl
theorem parseItems_render : ∀ (j : Json) (js : List Json) (fuel d : Nat) (rest : List Char),
    sizeItems (j :: js) ≤ fuel → 0 < d →
    parseItems fuel d (renderItems (j :: js) ++ ']' :: rest) =
      if depthItems (j :: js) < d then some (j :: js, rest) else none
  | j, js, 0, d, rest, hfuel, hd => by
    rw [sizeItems] at hfuel
    omega
  | j, [], fuel + 1, d, rest, hfuel, hd => by
    have hj := parseValue_render j fuel d _ (by rw [sizeItems] at hfuel; omega) hd
      (follows_bracket rest)
    have htext : renderItems [j] ++ ']' :: rest = render j ++ ']' :: rest := by simp [renderItems]
    have hdepth : depthItems [j] = depth j := by simp [depthItems]
    rw [htext, parseItems, hj, hdepth]
    split <;> simp
  | j, j' :: js, fuel + 1, d, rest, hfuel, hd => by
    rw [sizeItems] at hfuel
    have hj := parseValue_render j fuel d _ (by omega) hd
      (follows_comma (renderItems (j' :: js) ++ ']' :: rest))
    have hjs := parseItems_render j' js fuel d rest (by omega) hd
    have htext : renderItems (j :: j' :: js) ++ ']' :: rest =
        render j ++ ',' :: (renderItems (j' :: js) ++ ']' :: rest) := by
      rw [renderItems]
      simp
    have hdepth : depthItems (j :: j' :: js) = max (depth j) (depthItems (j' :: js)) := by
      rw [depthItems]
    rw [htext, parseItems, hj, hdepth]
    by_cases hok : depth j < d
    · by_cases hoks : depthItems (j' :: js) < d
      · simp [hok, hoks, hjs]
      · simp [hok, hoks, hjs]
    · simp [hok]
theorem parseFields_render : ∀ (f : String × Json) (fs : List (String × Json)) (fuel d : Nat)
    (rest : List Char), sizeFields (f :: fs) ≤ fuel → 0 < d →
    parseFields fuel d (renderFields (f :: fs) ++ '}' :: rest) =
      if depthFields (f :: fs) < d then some (f :: fs, rest) else none
  | f, fs, 0, d, rest, hfuel, hd => by
    rw [sizeFields] at hfuel
    omega
  | (k, v), [], fuel + 1, d, rest, hfuel, hd => by
    rw [sizeFields, sizeField] at hfuel
    have hv := parseValue_render v fuel d _ (by omega) hd (follows_brace rest)
    have htext : renderFields [(k, v)] ++ '}' :: rest =
        '"' :: (k.toList.flatMap escape ++ '"' :: (':' :: (render v ++ '}' :: rest))) := by
      simp [renderFields, renderField, renderString]
    have hdepth : depthFields [(k, v)] = depth v := by simp [depthFields, depthField]
    rw [htext, parseFields, hdepth]
    simp only [expect, parseStr_render, if_true, bind_eq_bind, bind_some, hv]
    split <;> simp
  | (k, v), f' :: fs, fuel + 1, d, rest, hfuel, hd => by
    rw [sizeFields, sizeField] at hfuel
    have hv := parseValue_render v fuel d _ (by omega) hd
      (follows_comma (renderFields (f' :: fs) ++ '}' :: rest))
    have hfs := parseFields_render f' fs fuel d rest (by omega) hd
    have htext : renderFields ((k, v) :: f' :: fs) ++ '}' :: rest =
        '"' :: (k.toList.flatMap escape ++ '"' :: (':' ::
          (render v ++ ',' :: (renderFields (f' :: fs) ++ '}' :: rest)))) := by
      rw [renderFields]
      simp [renderField, renderString]
    have hdepth : depthFields ((k, v) :: f' :: fs) = max (depth v) (depthFields (f' :: fs)) := by
      rw [depthFields, depthField]
    rw [htext, parseFields, hdepth]
    simp only [expect, parseStr_render, if_true, bind_eq_bind, bind_some, hv]
    by_cases hok : depth v < d
    · by_cases hoks : depthFields (f' :: fs) < d
      · simp [hok, hoks, hfs]
      · simp [hok, hoks, hfs]
    · simp [hok]
end

theorem parse_render (j : Json) : parse (render j) = if j.depth < recursionLimit then some j else none := by
  have h := parseValue_render j ((render j).length + 1) recursionLimit []
    (Nat.le_succ_of_le (size_le_length j)) (by decide) follows_nil
  rw [append_nil] at h
  rw [parse, h]
  by_cases hok : j.depth < recursionLimit
  · rw [if_pos hok, if_pos hok]
  · rw [if_neg hok, if_neg hok]

/-! ## More text behind -/

theorem head?_append_more {cs : List Char} {c : Char} (h : cs.head? = some c) (more : List Char) :
    (cs ++ more).head? = some c ∧ (cs ++ more).tail = cs.tail ++ more := by
  cases cs with
  | nil => cases h
  | cons c' cs => exact ⟨h, rfl⟩

/-- What a reader of values is asked of the text behind: nothing changes if something follows. -/
def ValueStable (fuel fuel' d : Nat) (more : List Char) : Prop :=
  ∀ cs j rest, parseValue fuel d cs = some (j, rest) → rest ≠ [] →
    parseValue fuel' d (cs ++ more) = some (j, rest ++ more)

/-- Items end with a bracket of their own, so nothing need follow. -/
def ItemsStable (fuel fuel' d : Nat) (more : List Char) : Prop :=
  ∀ cs js rest, parseItems fuel d cs = some (js, rest) →
    parseItems fuel' d (cs ++ more) = some (js, rest ++ more)

def FieldsStable (fuel fuel' d : Nat) (more : List Char) : Prop :=
  ∀ cs fs rest, parseFields fuel d cs = some (fs, rest) →
    parseFields fuel' d (cs ++ more) = some (fs, rest ++ more)

section
variable {fuel fuel' d : Nat} {more : List Char}

theorem itemsStable_succ (hvalue : ValueStable fuel fuel' d more)
    (hitems : ItemsStable fuel fuel' d more) : ItemsStable (fuel + 1) (fuel' + 1) d more := by
  intro cs js rest h
  simp only [parseItems, bind_eq_bind, bind_eq_some_iff] at h ⊢
  obtain ⟨⟨j, r⟩, hj, h⟩ := h
  have hr : r ≠ [] := by
    rintro rfl
    simp at h
  refine ⟨(j, r ++ more), hvalue cs j r hj hr, ?_⟩
  dsimp only at h ⊢
  rw [List.head?_append_of_ne_nil _ hr]
  split at h
  · next hcomma =>
    obtain ⟨⟨js', r'⟩, hjs, heq⟩ := map_eq_some_iff.mp h
    cases heq
    rw [if_pos hcomma, (head?_append_more hcomma more).2, hitems _ js' r' hjs]
    rfl
  · next hcomma =>
    split at h
    · next hclose =>
      cases h
      rw [if_neg hcomma, if_pos hclose, (head?_append_more hclose more).2]
    · cases h

theorem fieldsStable_succ (hvalue : ValueStable fuel fuel' d more)
    (hfields : FieldsStable fuel fuel' d more) : FieldsStable (fuel + 1) (fuel' + 1) d more := by
  intro cs fs rest h
  simp only [parseFields, bind_eq_bind, bind_eq_some_iff] at h ⊢
  obtain ⟨r₁, h₁, ⟨k, r₂⟩, h₂, r₃, h₃, ⟨j, r⟩, hj, h⟩ := h
  have hr : r ≠ [] := by
    rintro rfl
    simp at h
  refine ⟨_, expect_append h₁ more, _, parseStr_append h₂ more, _, expect_append h₃ more,
    (j, r ++ more), hvalue r₃ j r hj hr, ?_⟩
  dsimp only at h ⊢
  rw [List.head?_append_of_ne_nil _ hr]
  split at h
  · next hcomma =>
    obtain ⟨⟨fs', r'⟩, hfs, heq⟩ := map_eq_some_iff.mp h
    cases heq
    rw [if_pos hcomma, (head?_append_more hcomma more).2, hfields _ fs' r' hfs]
    rfl
  · next hcomma =>
    split at h
    · next hclose =>
      cases h
      rw [if_neg hcomma, if_pos hclose, (head?_append_more hclose more).2]
    · cases h

variable {rest : List Char} {cs : List Char}

theorem parseValue_brace_append (hfields : FieldsStable fuel fuel' (d - 1) more)
    {j : Json} (h : parseValue (fuel + 1) d ('{' :: cs) = some (j, rest)) :
    parseValue (fuel' + 1) d ('{' :: cs ++ more) = some (j, rest ++ more) := by
  rw [cons_append, parseValue_brace]
  rw [parseValue_brace] at h
  split at h
  · cases h
  · next hdeep =>
    rw [if_neg hdeep]
    split at h
    · next hclose =>
      cases h
      obtain ⟨hhead, htail⟩ := head?_append_more hclose more
      rw [if_pos hhead, htail]
    · next hclose =>
      obtain ⟨⟨fs, r⟩, hfs, heq⟩ := map_eq_some_iff.mp h
      cases heq
      have hne : cs ≠ [] := by
        rintro rfl
        cases fuel <;> simp [parseFields, expect] at hfs
      rw [List.head?_append_of_ne_nil _ hne, if_neg hclose, hfields cs fs _ hfs]
      rfl

theorem parseValue_bracket_append (hitems : ItemsStable fuel fuel' (d - 1) more)
    {j : Json} (h : parseValue (fuel + 1) d ('[' :: cs) = some (j, rest)) :
    parseValue (fuel' + 1) d ('[' :: cs ++ more) = some (j, rest ++ more) := by
  rw [cons_append, parseValue_bracket]
  rw [parseValue_bracket] at h
  split at h
  · cases h
  · next hdeep =>
    rw [if_neg hdeep]
    split at h
    · next hclose =>
      cases h
      obtain ⟨hhead, htail⟩ := head?_append_more hclose more
      rw [if_pos hhead, htail]
    · next hclose =>
      obtain ⟨⟨js, r⟩, hjs, heq⟩ := map_eq_some_iff.mp h
      cases heq
      have hne : cs ≠ [] := by
        rintro rfl
        rcases fuel with - | - | fuel <;> simp [parseItems, parseValue] at hjs
      rw [List.head?_append_of_ne_nil _ hne, if_neg hclose, hitems cs js _ hjs]
      rfl

theorem valueStable_succ (hitems : ItemsStable fuel fuel' (d - 1) more)
    (hfields : FieldsStable fuel fuel' (d - 1) more) : ValueStable (fuel + 1) (fuel' + 1) d more := by
  intro cs j rest h hrest
  cases cs with
  | nil => simp [parseValue] at h
  | cons c cs =>
    by_cases hbracket : c = '['
    · subst hbracket
      exact parseValue_bracket_append hitems h
    by_cases hbrace : c = '{'
    · subst hbrace
      exact parseValue_brace_append hfields h
    rw [cons_append]
    rw [parseValue] at h ⊢
    -- what is left are single lexemes, each with its own reader
    split at h
    · next hquote =>
      obtain ⟨⟨s, r⟩, hs, heq⟩ := map_eq_some_iff.mp h
      cases heq
      rw [if_pos hquote, parseStr_append hs more]
      rfl
    next hquote =>
    rw [if_neg hquote, if_neg hbracket, if_neg hbrace]
    split at h
    · next hn =>
      obtain ⟨r, hr, heq⟩ := map_eq_some_iff.mp h
      cases heq
      rw [if_pos hn, expect_append hr more]
      rfl
    next hn =>
    rw [if_neg hn]
    split at h
    · next ht =>
      obtain ⟨r, hr, heq⟩ := map_eq_some_iff.mp h
      cases heq
      rw [if_pos ht, expect_append hr more]
      rfl
    next ht =>
    rw [if_neg ht]
    split at h
    · next hf =>
      obtain ⟨r, hr, heq⟩ := map_eq_some_iff.mp h
      cases heq
      rw [if_pos hf, expect_append hr more]
      rfl
    next hf =>
    rw [if_neg hf, ← cons_append]
    exact parseNumber_append h hrest more

end

theorem stable_of_le (fuel : Nat) : ∀ (fuel' d : Nat) (more : List Char), fuel ≤ fuel' →
    ValueStable fuel fuel' d more ∧ ItemsStable fuel fuel' d more ∧ FieldsStable fuel fuel' d more := by
  induction fuel with
  | zero =>
    intro fuel' d more _
    refine ⟨fun cs j rest h => ?_, fun cs js rest h => ?_, fun cs fs rest h => ?_⟩
    · simp [parseValue] at h
    · simp [parseItems] at h
    · simp [parseFields] at h
  | succ fuel ih =>
    intro fuel' d more hle
    obtain ⟨fuel', rfl⟩ : ∃ k, fuel' = k + 1 := ⟨fuel' - 1, by omega⟩
    have hle := Nat.le_of_succ_le_succ hle
    obtain ⟨hvalue, hitems, hfields⟩ := ih fuel' d more hle
    obtain ⟨-, hitems', hfields'⟩ := ih fuel' (d - 1) more hle
    exact ⟨valueStable_succ hitems' hfields', itemsStable_succ hvalue hitems,
      fieldsStable_succ hvalue hfields⟩

theorem parse_torn_object (fields : List (String × Json)) {p : List Char}
    (hp : p <+: render (.obj fields)) (hne : p ≠ render (.obj fields)) : parse p = none := by
  obtain ⟨more, hmore⟩ := hp
  have hmore_ne : more ≠ [] := by
    rintro rfl
    exact hne (by simpa using hmore)
  cases p with
  | nil => rfl
  | cons c cs =>
    have hbrace : c = '{' := by
      rw [render, cons_append] at hmore
      exact (List.cons.inj hmore).1
    subst hbrace
    by_contra hparse
    obtain ⟨j, hj⟩ := ne_none_iff_exists'.mp hparse
    have hvalue : parseValue (cs.length + 1 + 1) recursionLimit ('{' :: cs) = some (j, []) := by
      unfold parse at hj
      split at hj
      · next heq =>
        cases hj
        exact heq
      · cases hj
    -- reading the whole text would then stop at the cut, but it reads to the end
    obtain ⟨-, -, hfields⟩ := stable_of_le (cs.length + 1) (('{' :: cs ++ more).length)
      (recursionLimit - 1) more (by simp)
    have hcut := parseValue_brace_append hfields hvalue
    have hwhole := parseValue_render (.obj fields) ((render (.obj fields)).length + 1) recursionLimit []
      (Nat.le_succ_of_le (size_le_length _)) (by decide) follows_nil
    rw [append_nil, ← hmore, hcut] at hwhole
    split at hwhole
    · simp only [nil_append, some.injEq, Prod.mk.injEq] at hwhole
      exact hmore_ne hwhole.2
    · cases hwhole

theorem parse_two_braces (cs : List Char) : parse ('{' :: '{' :: cs) = none := by
  have hfields : ∀ fuel d, parseFields fuel d ('{' :: cs) = none := by
    intro fuel d
    cases fuel with
    | zero => rw [parseFields]
    | succ fuel =>
      rw [parseFields, expect, if_neg (by decide)]
      rfl
  rw [parse, parseValue_brace, hfields, if_neg (by decide), if_neg (by simp)]
  rfl

/-! ## Printable characters -/

theorem printable_renderNat (n : Nat) : ∀ c ∈ renderNat n, 32 ≤ c.toNat := by
  have hdigit : ∀ d < 10, 32 ≤ (Nat.digitChar d).toNat := by decide
  unfold renderNat
  split
  · simp
  · intro c hc
    obtain ⟨d, hd, rfl⟩ := mem_map.mp hc
    exact hdigit d (Nat.digits_lt_base (by decide) (mem_reverse.mp hd))

theorem printable_renderInt (n : Int) : ∀ c ∈ renderInt n, 32 ≤ c.toNat := by
  unfold renderInt
  split
  · exact forall_mem_cons.mpr ⟨by decide, printable_renderNat _⟩
  · exact printable_renderNat _

theorem printable_escape (c : Char) : ∀ c' ∈ escape c, 32 ≤ c'.toNat := by
  have hhex : ∀ d < 16, 32 ≤ (hexDigit d).toNat := by decide
  unfold escape
  split_ifs with h₁ h₂ hcontrol
  iterate 7 simp
  · have hhigh := hhex (c.toNat / 16) (by omega)
    have hlow := hhex (c.toNat % 16) (Nat.mod_lt _ (by decide))
    simp [hhigh, hlow]
  · simpa using hcontrol

theorem printable_renderString (s : List Char) : ∀ c ∈ renderString s, 32 ≤ c.toNat := by
  refine forall_mem_cons.mpr ⟨by decide, forall_mem_append.mpr ⟨?_, by simp⟩⟩
  intro c hc
  obtain ⟨c', -, hc'⟩ := mem_flatMap.mp hc
  exact printable_escape c' c hc'

mutual
theorem printable_render : ∀ j : Json, ∀ c ∈ render j, 32 ≤ c.toNat
  | .null => by simp [render]
  | .bool true => by simp [render]
  | .bool false => by simp [render]
  | .int n => printable_renderInt n
  | .float n => forall_mem_append.mpr ⟨printable_renderInt n, by simp⟩
  | .str s => printable_renderString s.toList
  | .arr items => forall_mem_cons.mpr
    ⟨by decide, forall_mem_append.mpr ⟨printable_renderItems items, by simp⟩⟩
  | .obj fields => forall_mem_cons.mpr
    ⟨by decide, forall_mem_append.mpr ⟨printable_renderFields fields, by simp⟩⟩
theorem printable_renderItems : ∀ js : List Json, ∀ c ∈ renderItems js, 32 ≤ c.toNat
  | [] => by simp [renderItems]
  | j :: js => by
    rw [renderItems]
    refine forall_mem_append.mpr ⟨printable_render j, ?_⟩
    split
    · simp
    · exact forall_mem_cons.mpr ⟨by decide, printable_renderItems js⟩
theorem printable_renderFields : ∀ fs : List (String × Json), ∀ c ∈ renderFields fs, 32 ≤ c.toNat
  | [] => by simp [renderFields]
  | f :: fs => by
    rw [renderFields]
    refine forall_mem_append.mpr ⟨printable_renderField f, ?_⟩
    split
    · simp
    · exact forall_mem_cons.mpr ⟨by decide, printable_renderFields fs⟩
theorem printable_renderField : ∀ f : String × Json, ∀ c ∈ renderField f, 32 ≤ c.toNat
  | (k, v) => forall_mem_append.mpr ⟨printable_renderString k.toList,
    forall_mem_cons.mpr ⟨by decide, printable_render v⟩⟩
end

end Json

end Hyperion.Lib
