import TaskVm.Json.Writer
import TaskVm.Proofs.Numerals

/-!
# Documents

The compact text of a document is read as the same document. A character of a string is written in
one of a few ways, each of which is read back; a number ends where a collection goes on or ends; and
a collection is read back if its parts are. The reader counts down what it may still enter, and it
has fuel for two steps at each character, which is more than it takes.
-/

namespace TaskVm.Json

variable {n fuel depth : Nat} {c : Char} {cs rest : List Char} {j : Json}

/-! ## Strings -/

theorem skipSpace_cons (hc : isSpace c = false) (cs : List Char) : skipSpace (c :: cs) = c :: cs :=
  List.dropWhile_cons_of_neg (by simp [hc])

/-- A control character is read back from its number. -/
theorem escapedUnit_hexFixed {k : Nat} (hk : k < 0x20) (cs : List Char) :
    escapedUnit (Text.hexFixed 4 k ++ cs) = some (Char.ofNat k, cs) := by
  have hquad : ∀ k < 0x20, Text.hexNat? (Text.hexFixed 4 k) = some k := by decide
  have hread : hexQuad (Text.hexFixed 4 k ++ cs) = some (k, cs) := by
    show (Text.hexNat? (Text.hexFixed 4 k)).map (·, cs) = _
    rw [hquad k hk]
    rfl
  unfold escapedUnit
  rw [hread]
  dsimp only
  rw [if_neg (by omega), if_neg (by omega)]

/-- **A character is read back** from the way it is written in a string. -/
theorem stringBody_escape (fuel : Nat) (c : Char) (cs : List Char) :
    stringBody (fuel + 1) (escape c ++ cs) =
      (stringBody fuel cs).map fun r => (c :: r.1, r.2) := by
  have hescaped : ∀ c' cs', escaped cs' = some (c', cs) →
      stringBody (fuel + 1) ('\\' :: cs') = (stringBody fuel cs).map fun r => (c' :: r.1, r.2) := by
    intro c' cs' h
    rw [stringBody, h]
    simp only [Option.bind_eq_bind, Option.bind_some]
    cases stringBody fuel cs <;> rfl
  -- Seven characters are escaped by a letter, and the other control characters by their number.
  unfold escape
  split
  iterate 7 exact hescaped _ _ rfl
  · rename_i hquote hbackslash _ _ _ _ _
    split
    · rename_i hcontrol
      refine hescaped _ _ ?_
      have hread := escapedUnit_hexFixed hcontrol cs
      rwa [Char.ofNat_toNat] at hread
    · rename_i hprinting
      rw [List.singleton_append, stringBody]
      · rw [if_neg hprinting]
        cases stringBody fuel cs <;> rfl
      · exact hquote
      · exact hbackslash

theorem stringBody_flatMap (s : List Char) : ∀ {fuel : Nat}, s.length < fuel →
    stringBody fuel (s.flatMap escape ++ '"' :: rest) = some (s, rest) := by
  induction s with
  | nil =>
    intro fuel hfuel
    obtain ⟨fuel, rfl⟩ : ∃ k, fuel = k + 1 := ⟨fuel - 1, by omega⟩
    rfl
  | cons c s ih =>
    intro fuel hfuel
    obtain ⟨fuel, rfl⟩ : ∃ k, fuel = k + 1 := ⟨fuel - 1, by omega⟩
    rw [List.flatMap_cons, List.append_assoc, stringBody_escape,
      ih (by simpa using hfuel)]
    rfl

theorem length_le_escape (s : List Char) : s.length ≤ (s.flatMap escape).length := by
  have hpos : ∀ c, 1 ≤ (escape c).length := by
    intro c
    unfold escape
    split
    iterate 7 exact Nat.le_add_left _ _
    split <;> exact Nat.le_add_left _ _
  induction s with
  | nil => exact Nat.le_refl _
  | cons c s ih =>
    rw [List.flatMap_cons, List.length_append, List.length_cons]
    have := hpos c
    omega

/-- **A string is read back.** -/
theorem stringBody_quoted (s : String) (rest : List Char) :
    let text := s.toList.flatMap escape ++ '"' :: rest
    stringBody (text.length + 1) text = some (s.toList, rest) := by
  intro text
  refine stringBody_flatMap _ ?_
  have := length_le_escape s.toList
  simp only [text, List.length_append, List.length_cons]
  omega

/-! ## Values -/

/-- A document that is nested at most `n` deep, with integers that fit a word and floats that are
finite. -/
inductive Fits : Nat → Json → Prop where
  | null {n : Nat} : Fits n .null
  | bool {n : Nat} (b : Bool) : Fits n (.bool b)
  | integer {n : Nat} {i : Int} (hmin : minInteger ≤ i) (hmax : i ≤ maxInteger) :
      Fits n (.integer i)
  | float {n : Nat} {x : Number} (hx : x.isFinite = true) : Fits n (.float x)
  | string {n : Nat} (s : String) : Fits n (.string s)
  | array {n : Nat} {items : List Json} (hitems : ∀ j ∈ items, Fits n j) :
      Fits (n + 1) (.array items)
  | object {n : Nat} {members : List (String × Json)} (hmembers : ∀ e ∈ members, Fits n e.2) :
      Fits (n + 1) (.object members)

/-- A document is read back from its text, with so much fuel and so much room below. -/
def ReadsBack (n : Nat) (j : Json) : Prop :=
  ∀ {fuel depth : Nat} {rest : List Char}, n < depth → 2 * j.compact.length ≤ fuel →
    Closes rest → value fuel depth (j.compact ++ rest) = some (j, rest)

/-- A document is a number and is read as one. -/
def ReadsAsNumber (j : Json) : Prop :=
  ∀ rest, Closes rest → number (j.compact ++ rest) = some (j, rest)

/-- By its first character a value is told from blanks and from the end of an array. -/
def Opens (cs : List Char) : Prop := ∃ c rest, cs = c :: rest ∧ isSpace c = false ∧ c ≠ ']'

/-- A number begins with a digit or a sign. -/
theorem head_of_number {r : Json × List Char} (hr : number cs = some r) :
    ∃ c rest, cs = c :: rest ∧ (isDigit c = true ∨ c = '-') := by
  unfold number at hr
  split at hr
  · exact ⟨_, _, rfl, .inr rfl⟩
  · obtain ⟨⟨whole, rest⟩, hwhole, -⟩ := Option.bind_eq_some_iff.mp hr
    unfold integerPart at hwhole
    split at hwhole
    · exact ⟨_, _, rfl, .inl rfl⟩
    · unfold digits at hwhole
      split at hwhole
      · cases hwhole
      · cases cs with
        | nil => exact absurd List.takeWhile_nil ‹_›
        | cons c cs =>
          refine ⟨c, cs, rfl, .inl ?_⟩
          by_contra hc
          exact absurd (List.takeWhile_cons_of_neg hc) ‹_›

theorem isSpace_of_number (hc : isDigit c = true ∨ c = '-') : isSpace c = false := by
  by_contra h
  simp only [isSpace, Bool.not_eq_false, Bool.or_eq_true, beq_iff_eq] at h
  obtain ((rfl | rfl) | rfl) | rfl := h <;> exact absurd hc (by decide)

theorem value_number (hc : isDigit c = true ∨ c = '-') (fuel depth : Nat) (cs : List Char) :
    value (fuel + 1) depth (c :: cs) = number (c :: cs) := by
  unfold value
  rw [skipSpace_cons (isSpace_of_number hc)]
  -- None of the characters that other values begin with is a digit or a sign.
  split
  iterate 6
    rename_i heq
    cases heq
    exact absurd hc (by decide)
  rfl

theorem ReadsAsNumber.head (hj : j.ReadsAsNumber) :
    ∃ c rest, j.compact = c :: rest ∧ (isDigit c = true ∨ c = '-') := by
  have hempty := hj [] nofun
  rw [List.append_nil] at hempty
  exact head_of_number hempty

theorem ReadsAsNumber.opens (hj : j.ReadsAsNumber) : Opens j.compact := by
  obtain ⟨c, rest, htext, hc⟩ := hj.head
  refine ⟨c, rest, htext, isSpace_of_number hc, ?_⟩
  rintro rfl
  exact absurd hc (by decide)

theorem ReadsAsNumber.readsBack (hj : j.ReadsAsNumber) : j.ReadsBack n := by
  intro fuel depth rest _ hfuel hrest
  have hread := hj rest hrest
  obtain ⟨c, cs, htext, hc⟩ := hj.head
  rw [htext, List.cons_append] at hread ⊢
  rw [htext, List.length_cons] at hfuel
  obtain ⟨fuel, rfl⟩ : ∃ k, fuel = k + 1 := ⟨fuel - 1, by omega⟩
  rw [value_number hc, hread]

theorem integer_readsAsNumber {i : Int} (hmin : minInteger ≤ i) (hmax : i ≤ maxInteger) :
    (integer i).ReadsAsNumber :=
  fun _ => number_toString hmin hmax

theorem float_readsAsNumber {x : Number} (hx : x.isFinite = true) : (float x).ReadsAsNumber :=
  fun _ => number_text hx

/-! ## Collections -/

theorem commaSeparated_cons (t : List Char) {ts : List (List Char)} (hne : ts ≠ []) :
    commaSeparated (t :: ts) = t ++ ',' :: commaSeparated ts := by
  cases ts with
  | nil => exact absurd rfl hne
  | cons => rfl

theorem closes_cons (hc : c = ',' ∨ c = ']' ∨ c = '\x7d') (rest : List Char) :
    Closes (c :: rest) := by
  rintro _ ⟨⟩
  exact hc

section

variable {items : List Json} {ms : List (String × Json)}

theorem elements_append (hj : j.ReadsBack n) (hdepth : n < depth)
    (hfuel : 2 * j.compact.length ≤ fuel) (cs : List Char) :
    elements (fuel + 1) depth (j.compact ++ ',' :: cs) =
        (elements fuel depth cs).map (fun r => (j :: r.1, r.2)) ∧
      elements (fuel + 1) depth (j.compact ++ ']' :: cs) = some ([j], cs) := by
  constructor
  · rw [elements, hj hdepth hfuel (closes_cons (by decide) cs)]
    rfl
  · rw [elements, hj hdepth hfuel (closes_cons (by decide) cs)]
    rfl

/-- The elements of an array are read back if each of them is. -/
theorem elements_compact (hne : items ≠ []) (hitems : ∀ j ∈ items, j.ReadsBack n)
    (hdepth : n < depth) :
    ∀ {fuel : Nat}, 2 * (commaSeparated (compactItems items)).length < fuel →
    elements fuel depth (commaSeparated (compactItems items) ++ ']' :: rest) =
      some (items, rest) := by
  induction items with
  | nil => exact absurd rfl hne
  | cons j items ih =>
    intro fuel hfuel
    obtain ⟨fuel, rfl⟩ : ∃ k, fuel = k + 1 := ⟨fuel - 1, by omega⟩
    have hj : j.ReadsBack n := hitems j List.mem_cons_self
    cases items with
    | nil =>
      rw [compactItems, compactItems, commaSeparated] at hfuel ⊢
      exact (elements_append hj hdepth (by omega) rest).2
    | cons j' items =>
      -- The comma pays for the fuel that the first element takes.
      have hmore : compactItems (j' :: items) ≠ [] := List.cons_ne_nil _ _
      rw [compactItems, commaSeparated_cons _ hmore] at hfuel ⊢
      rw [List.length_append, List.length_cons] at hfuel
      rw [List.append_assoc, List.cons_append, (elements_append hj hdepth (by omega) _).1,
        ih (List.cons_ne_nil _ _) (fun j hj => hitems j (List.mem_cons_of_mem _ hj)) (by omega)]
      rfl

theorem members_append (key : String) (hj : j.ReadsBack n) (hdepth : n < depth)
    (hfuel : 2 * j.compact.length ≤ fuel) (cs : List Char) :
    members (fuel + 1) depth (quoted key ++ ':' :: j.compact ++ ',' :: cs) =
        (members fuel depth cs).map (fun r => ((key, j) :: r.1, r.2)) ∧
      members (fuel + 1) depth (quoted key ++ ':' :: j.compact ++ '\x7d' :: cs) =
        some ([(key, j)], cs) := by
  have htext : ∀ tail, quoted key ++ ':' :: j.compact ++ tail =
      '"' :: (key.toList.flatMap escape ++ '"' :: ':' :: (j.compact ++ tail)) := by
    intro tail
    simp [quoted]
  constructor
  · rw [htext, members, skipSpace_cons rfl]
    simp only [stringBody_quoted]
    rw [skipSpace_cons rfl]
    simp only [hj hdepth hfuel (closes_cons (.inl rfl) cs), String.ofList_toList]
    rfl
  · rw [htext, members, skipSpace_cons rfl]
    simp only [stringBody_quoted]
    rw [skipSpace_cons rfl]
    simp only [hj hdepth hfuel (closes_cons (.inr (.inr rfl)) cs), String.ofList_toList]
    rfl

/-- The members of an object are read back if their values are. -/
theorem members_compact (hne : ms ≠ []) (hms : ∀ e ∈ ms, e.2.ReadsBack n)
    (hdepth : n < depth) :
    ∀ {fuel : Nat}, 2 * (commaSeparated (compactMembers ms)).length < fuel →
    members fuel depth (commaSeparated (compactMembers ms) ++ '\x7d' :: rest) =
      some (ms, rest) := by
  induction ms with
  | nil => exact absurd rfl hne
  | cons e ms ih =>
    intro fuel hfuel
    obtain ⟨key, j⟩ := e
    obtain ⟨fuel, rfl⟩ : ∃ k, fuel = k + 1 := ⟨fuel - 1, by omega⟩
    have hj : j.ReadsBack n := hms (key, j) List.mem_cons_self
    -- The last member is followed by the closing brace, the others by a comma.
    cases ms with
    | nil =>
      rw [compactMembers, compactMembers, commaSeparated] at hfuel ⊢
      rw [List.length_append, List.length_cons] at hfuel
      exact (members_append key hj hdepth (by omega) rest).2
    | cons e' ms =>
      obtain ⟨key', j'⟩ := e'
      have hmore : compactMembers ((key', j') :: ms) ≠ [] := List.cons_ne_nil _ _
      rw [compactMembers, commaSeparated_cons _ hmore] at hfuel ⊢
      rw [List.length_append, List.length_append, List.length_cons, List.length_cons] at hfuel
      rw [List.append_assoc, List.cons_append, (members_append key hj hdepth (by omega) _).1,
        ih (List.cons_ne_nil _ _) (fun e he => hms e (List.mem_cons_of_mem _ he)) (by omega)]
      rfl

end

theorem Fits.opens (hj : j.Fits n) : Opens j.compact := by
  cases hj with
  | null => exact ⟨_, _, rfl, rfl, by decide⟩
  | bool b => cases b <;> exact ⟨_, _, rfl, rfl, by decide⟩
  | integer hmin hmax => exact (integer_readsAsNumber hmin hmax).opens
  | float hx => exact (float_readsAsNumber hx).opens
  | string | array | object => exact ⟨_, _, rfl, rfl, by decide⟩

/-- There is fuel for the first character. -/
theorem Fits.readsBack_of (hj : j.Fits n)
    (hread : ∀ {fuel depth : Nat} {rest : List Char}, n < depth →
      2 * j.compact.length ≤ fuel + 1 →
      value (fuel + 1) depth (j.compact ++ rest) = some (j, rest)) : j.ReadsBack n := by
  intro fuel depth rest hdepth hfuel _
  obtain ⟨c, cs, htext, -, -⟩ := hj.opens
  cases fuel with
  | zero =>
    rw [htext, List.length_cons] at hfuel
    omega
  | succ fuel => exact hread hdepth hfuel

theorem value_string (s : String) (fuel depth : Nat) (rest : List Char) :
    value (fuel + 1) depth ((string s).compact ++ rest) = some (string s, rest) := by
  have htext : (string s).compact ++ rest = '"' :: (s.toList.flatMap escape ++ '"' :: rest) := by
    simp [compact, quoted]
  rw [htext]
  unfold value
  rw [skipSpace_cons rfl]
  simp only [stringBody_quoted, Option.map_some, String.ofList_toList]

theorem value_empty (hdepth : 1 < depth) (fuel : Nat) (rest : List Char) :
    value (fuel + 1) depth ('[' :: ']' :: rest) = some (array [], rest) ∧
      value (fuel + 1) depth ('\x7b' :: '\x7d' :: rest) = some (object [], rest) := by
  constructor
  · unfold value
    rw [skipSpace_cons rfl]
    simp only [if_neg (Nat.not_le.mpr hdepth)]
    rfl
  · unfold value
    rw [skipSpace_cons rfl]
    simp only [if_neg (Nat.not_le.mpr hdepth)]
    rfl

theorem value_bracket (hdepth : 1 < depth) (fuel : Nat) (ho : Opens cs) :
    value (fuel + 1) depth ('[' :: cs) =
      (elements fuel (depth - 1) cs).map fun r => (array r.1, r.2) := by
  obtain ⟨c, cs, rfl, hspace, hc⟩ := ho
  unfold value
  rw [skipSpace_cons rfl]
  simp only [if_neg (Nat.not_le.mpr hdepth), skipSpace_cons hspace]
  split
  · rename_i heq
    cases heq
    exact absurd rfl hc
  · rfl

theorem value_brace (hdepth : 1 < depth) (fuel : Nat) (cs : List Char) :
    value (fuel + 1) depth ('\x7b' :: '"' :: cs) =
      (members fuel (depth - 1) ('"' :: cs)).map fun r => (object r.1, r.2) := by
  unfold value
  rw [skipSpace_cons rfl]
  simp only [if_neg (Nat.not_le.mpr hdepth), skipSpace_cons (c := '"') rfl]
  rfl

theorem commaSeparated_eq (t : List Char) (ts : List (List Char)) :
    ∃ tail, commaSeparated (t :: ts) = t ++ tail := by
  cases ts with
  | nil => exact ⟨[], (List.append_nil t).symm⟩
  | cons => exact ⟨_, rfl⟩

theorem value_array {items : List Json} (hitems : ∀ j ∈ items, j.Fits n)
    (hback : ∀ j ∈ items, j.ReadsBack n) (hdepth : n + 1 < depth)
    (hfuel : 2 * (array items).compact.length ≤ fuel + 1) :
    value (fuel + 1) depth ((array items).compact ++ rest) = some (array items, rest) := by
  have htext : (array items).compact ++ rest =
      '[' :: (commaSeparated (compactItems items) ++ ']' :: rest) := by
    simp [compact]
  rw [htext]
  cases items with
  | nil => exact (value_empty (by omega) fuel rest).1
  | cons j items =>
    -- The bracket closes at once only if there are no elements.
    have hopens : Opens (commaSeparated (compactItems (j :: items)) ++ ']' :: rest) := by
      obtain ⟨c, cs, hc, hspace, hne⟩ := (hitems j List.mem_cons_self).opens
      obtain ⟨tail, htail⟩ := commaSeparated_eq j.compact (compactItems items)
      rw [compactItems, htail, hc]
      exact ⟨c, _, rfl, hspace, hne⟩
    have hlength : 2 * (commaSeparated (compactItems (j :: items))).length < fuel := by
      simp only [compact, List.cons_append, List.length_cons, List.length_append,
        List.length_nil] at hfuel
      omega
    rw [value_bracket (by omega) fuel hopens,
      elements_compact (List.cons_ne_nil _ _) hback (by omega) hlength]
    rfl

theorem value_object {ms : List (String × Json)} (hback : ∀ e ∈ ms, e.2.ReadsBack n)
    (hdepth : n + 1 < depth) (hfuel : 2 * (object ms).compact.length ≤ fuel + 1) :
    value (fuel + 1) depth ((object ms).compact ++ rest) = some (object ms, rest) := by
  have htext : (object ms).compact ++ rest =
      '\x7b' :: (commaSeparated (compactMembers ms) ++ '\x7d' :: rest) := by
    simp [compact]
  rw [htext]
  cases ms with
  | nil => exact (value_empty (by omega) fuel rest).2
  | cons e ms =>
    obtain ⟨cs, hquote⟩ : ∃ cs, commaSeparated (compactMembers (e :: ms)) ++ '\x7d' :: rest =
        '"' :: cs := by
      obtain ⟨tail, htail⟩ := commaSeparated_eq (quoted e.1 ++ ':' :: e.2.compact)
        (compactMembers ms)
      rw [compactMembers, htail]
      exact ⟨_, rfl⟩
    have hlength : 2 * (commaSeparated (compactMembers (e :: ms))).length < fuel := by
      simp only [compact, List.cons_append, List.length_cons, List.length_append,
        List.length_nil] at hfuel
      omega
    rw [hquote, value_brace (by omega) fuel cs, ← hquote,
      members_compact (List.cons_ne_nil _ _) hback (by omega) hlength]
    rfl

/-- **A document is read back from its compact text.** -/
theorem Fits.readsBack (hj : j.Fits n) : j.ReadsBack n := by
  induction hj with
  | integer hmin hmax => exact (integer_readsAsNumber hmin hmax).readsBack
  | float hx => exact (float_readsAsNumber hx).readsBack
  | null => exact Fits.null.readsBack_of fun _ _ => rfl
  | bool b => exact (Fits.bool b).readsBack_of fun _ _ => by cases b <;> rfl
  | string s => exact (Fits.string s).readsBack_of fun _ _ => value_string s _ _ _
  | array hitems ih => exact (Fits.array hitems).readsBack_of (value_array hitems ih)
  | object hms ih => exact (Fits.object hms).readsBack_of (value_object ih)

/-- **The text of a document is the document's**, unless it is nested too deep. -/
theorem Fits.read?_compact (hj : j.Fits n) (hn : n < depthLimit) :
    read? (String.ofList j.compact) = some j := by
  have hread : value (2 * j.compact.length + 2) depthLimit (j.compact ++ []) = some (j, []) :=
    hj.readsBack hn (by omega) nofun
  rw [List.append_nil] at hread
  unfold read? readWithin?
  simp only [String.toList_ofList, hread]
  rfl

end TaskVm.Json
