import Toolpath.Proofs.Json.Token

/-!
# Reading what was printed

The reader meets the tokens of a printed value, builds the value's draft from them and is left with
what stands behind it. The draft settles to the value again if the value is readable: its numbers
are kept and it is not nested too deep.

* `Draft.ofJson` — the draft of a value
* `run_tokenList` — the reader builds it from the value's tokens
* `Kept` — a float that comes back from its text
* `Readable` — a value all of whose floats are kept, within the limits of the reader
* `read_text`, `read_spread` — a readable value comes back from either of its texts
-/

namespace Toolpath.Json

/-! ## The draft of a value -/

namespace Draft

/-- The draft of a float. -/
def ofReal (x : Float) : Draft := if x.isFinite then .number (.ofFloat x) else .null

mutual

/-- The draft of a value. -/
def ofJson : Json → Draft
  | .null => .null
  | .bool b => .bool b
  | .integer n => .number (.ofInt n)
  | .real x => ofReal x
  | .string s => .string (some s)
  | .array items => .array (ofItems items) none
  | .object fields => .object (ofFields fields) none

/-- The drafts of items. -/
def ofItems : List Json → List Draft
  | [] => []
  | v :: rest => ofJson v :: ofItems rest

/-- The drafts of fields. -/
def ofFields : List (String × Json) → List (Option String × Draft)
  | [] => []
  | (name, v) :: rest => (some name, ofJson v) :: ofFields rest

end

end Draft

/-! ## The machine on the tokens of a value -/

/-- What becomes of a complete value in these containers, with these tokens to come. -/
def resume (d : Draft) (frames : List Frame) (rest : List Token) : Draft × List Token :=
  match place d frames with
  | .inl v => (v, rest)
  | .inr p => run p rest

theorem run_of_step {t : Token} {p p' : Place} (h : step t p = .ok (.inr p')) (rest : List Token) :
    run p (t :: rest) = run p' rest := by rw [run, h]

theorem run_of_place {t : Token} {p : Place} {d : Draft} {frames : List Frame}
    (h : step t p = .ok (place d frames)) (rest : List Token) :
    run p (t :: rest) = resume d frames rest := by
  rw [run, h, resume]
  cases place d frames <;> rfl

/-- A value may come: at all, or as the first item of an array. -/
def Need.TakesValue (n : Need) : Prop := n = .value ∨ n = .firstItem

/-- A field's name has to come. -/
def Need.TakesName (n : Need) : Prop := n = .firstName ∨ n = .name

theorem step_takesValue {need : Need} (hneed : need.TakesValue) {t : Token} (ht : t ≠ .closeArray)
    (frames : List Frame) : step t ⟨frames, need⟩ = takeValue t frames := by
  obtain rfl | rfl := hneed
  · rfl
  · -- only a closing bracket is not taken as a value where a first item may come
    unfold step
    split <;> simp_all

theorem run_of_takeValue {need : Need} (hneed : need.TakesValue) {t : Token}
    (ht : t ≠ .closeArray) {frames : List Frame} {d : Draft}
    (h : takeValue t frames = .ok (place d frames)) (rest : List Token) :
    run ⟨frames, need⟩ (t :: rest) = resume d frames rest :=
  run_of_place ((step_takesValue hneed ht frames).trans h) rest

theorem run_realToken {need : Need} (hneed : need.TakesValue) (x : Float) (frames : List Frame)
    (rest : List Token) :
    run ⟨frames, need⟩ (realToken x :: rest) = resume (.ofReal x) frames rest := by
  unfold realToken Draft.ofReal
  split
  · exact run_of_takeValue hneed (by simp) rfl rest
  · exact run_of_takeValue hneed (by simp) rfl rest

theorem step_name {need : Need} (hneed : need.TakesName)
    (seen : List (Option String × Draft)) (name : String) (outer : List Frame) :
    step (.string (some name)) ⟨.object seen :: outer, need⟩ =
      .ok (.inr ⟨.field seen (some name) :: outer, .colon⟩) := by
  obtain rfl | rfl := hneed <;> rfl

mutual

/-- **The reader builds a value's draft from its tokens.** -/
theorem run_tokenList : ∀ (v : Json) {need : Need}, need.TakesValue → ∀ (frames : List Frame)
    (rest : List Token),
    run ⟨frames, need⟩ (tokenList v ++ rest) = resume (.ofJson v) frames rest
  | .null, _, hneed, _, rest => run_of_takeValue hneed (by simp) rfl rest
  | .bool _, _, hneed, _, rest => run_of_takeValue hneed (by simp) rfl rest
  | .integer _, _, hneed, _, rest => run_of_takeValue hneed (by simp) rfl rest
  | .real x, _, hneed, frames, rest => run_realToken hneed x frames rest
  | .string _, _, hneed, _, rest => run_of_takeValue hneed (by simp) rfl rest
  | .array items, need, hneed, frames, rest => by
    -- the bracket opens a frame, and the items close it
    have hopen : step .openArray ⟨frames, need⟩ = .ok (.inr ⟨.array [] :: frames, .firstItem⟩) :=
      step_takesValue hneed (by simp) frames
    simp only [tokenList, List.cons_append, List.append_assoc, List.nil_append]
    rw [run_of_step hopen]
    cases items with
    | nil => exact run_of_place rfl rest
    | cons v items => exact run_itemTokens (v :: items) (by simp) (.inr rfl) [] frames rest
  | .object fields, need, hneed, frames, rest => by
    have hopen : step .openObject ⟨frames, need⟩ = .ok (.inr ⟨.object [] :: frames, .firstName⟩) :=
      step_takesValue hneed (by simp) frames
    simp only [tokenList, List.cons_append, List.append_assoc, List.nil_append]
    rw [run_of_step hopen]
    cases fields with
    | nil => exact run_of_place rfl rest
    | cons f fields => exact run_fieldTokens (f :: fields) (by simp) (.inl rfl) [] frames rest

theorem run_itemTokens : ∀ items : List Json, items ≠ [] → ∀ {need : Need}, need.TakesValue →
    ∀ (seen : List Draft) (outer : List Frame) (rest : List Token),
    run ⟨.array seen :: outer, need⟩ (itemTokens items ++ .closeArray :: rest) =
      resume (.array (seen.reverse ++ Draft.ofItems items) none) outer rest
  | [], hne, _, _, _, _, _ => absurd rfl hne
  | [v], _, _, hneed, seen, outer, rest => by
    have hclose : step .closeArray ⟨.array (.ofJson v :: seen) :: outer, .moreItems⟩ =
      .ok (place (.array (.ofJson v :: seen).reverse none) outer) := rfl
    rw [List.reverse_cons] at hclose
    rw [itemTokens, run_tokenList v hneed]
    exact run_of_place hclose rest
  | v :: w :: items, _, _, hneed, seen, outer, rest => by
    have hcomma : step .comma ⟨.array (.ofJson v :: seen) :: outer, .moreItems⟩ =
      .ok (.inr ⟨.array (.ofJson v :: seen) :: outer, .value⟩) := rfl
    have hitems := run_itemTokens (w :: items) (by simp) (.inl rfl) (.ofJson v :: seen) outer rest
    rw [List.reverse_cons, List.append_assoc] at hitems
    rw [itemTokens.eq_3 v (w :: items) (by simp), List.append_assoc, List.cons_append,
      run_tokenList v hneed]
    exact (run_of_step hcomma _).trans hitems

theorem run_fieldTokens : ∀ fields : List (String × Json), fields ≠ [] → ∀ {need : Need},
    need.TakesName → ∀ (seen : List (Option String × Draft)) (outer : List Frame)
    (rest : List Token),
    run ⟨.object seen :: outer, need⟩ (fieldTokens fields ++ .closeObject :: rest) =
      resume (.object (seen.reverse ++ Draft.ofFields fields) none) outer rest
  | [], hne, _, _, _, _, _ => absurd rfl hne
  | [(name, v)], _, need, hneed, seen, outer, rest => by
    have hname := step_name hneed seen name outer
    have hclose :
        step .closeObject ⟨.object ((some name, .ofJson v) :: seen) :: outer, .moreFields⟩ =
      .ok (place (.object ((some name, .ofJson v) :: seen).reverse none) outer) := rfl
    rw [List.reverse_cons] at hclose
    rw [fieldTokens, List.cons_append, List.cons_append, run_of_step hname, run_of_step rfl,
      run_tokenList v (.inl rfl)]
    exact run_of_place hclose rest
  | (name, v) :: f :: fields, _, need, hneed, seen, outer, rest => by
    have hname := step_name hneed seen name outer
    have hcomma : step .comma ⟨.object ((some name, .ofJson v) :: seen) :: outer, .moreFields⟩ =
      .ok (.inr ⟨.object ((some name, .ofJson v) :: seen) :: outer, .name⟩) := rfl
    have hfields := run_fieldTokens (f :: fields) (by simp) (.inr rfl)
      ((some name, .ofJson v) :: seen) outer rest
    rw [List.reverse_cons, List.append_assoc] at hfields
    rw [fieldTokens.eq_3 name v (f :: fields) (by simp), List.cons_append, List.cons_append,
      List.append_assoc, List.cons_append, run_of_step hname, run_of_step rfl,
      run_tokenList v (.inl rfl)]
    exact (run_of_step hcomma _).trans hfields

end

theorem draft_of_tokens {cs : List Char} {v : Json} (h : tokens cs = tokenList v) :
    draft (String.ofList cs) = (.ofJson v, []) := by
  have hrun := run_tokenList v (.inl rfl) [] []
  rw [List.append_nil] at hrun
  rw [draft, String.toList_ofList, h, hrun]
  rfl

/-- The draft of a value's text. -/
theorem draft_text (v : Json) : draft v.text = (.ofJson v, []) := by
  have htokens := tokens_compact v bounded_nil
  rw [List.append_nil, tokens_nil, List.append_nil] at htokens
  exact draft_of_tokens htokens

/-- The draft of a value's text over several lines. -/
theorem draft_spread (v : Json) : draft (String.ofList (v.spread 0)) = (.ofJson v, []) := by
  have htokens := tokens_spread 0 v bounded_nil
  rw [List.append_nil, tokens_nil, List.append_nil] at htokens
  exact draft_of_tokens htokens

/-! ## Readable values -/

/-- A float comes back from its text. -/
def Kept (x : Float) : Prop := read (Json.real x).text = .ok (.real x)

theorem kept_iff {x : Float} :
    Kept x ↔ x.isFinite = true ∧ (Numeral.ofFloat x).float? = some x := by
  have hvalue : (Numeral.ofFloat x).value? = (Numeral.ofFloat x).float?.map .real := by
    rw [Numeral.value?, Numeral.ofFloat, Numeral.integer?_ofDecimal]
  unfold Kept read
  rw [draft_text]
  -- what is not finite is written as null, and is read as null
  by_cases hx : x.isFinite = true
  · have hdraft : Draft.ofJson (.real x) = .number (.ofFloat x) := if_pos hx
    rw [hdraft, Draft.settle, hvalue]
    cases hfloat : (Numeral.ofFloat x).float? <;> simp [hx]
  · have hdraft : Draft.ofJson (.real x) = .null := if_neg hx
    rw [hdraft, Draft.settle]
    simp [hx]

instance (x : Float) : Decidable (Kept x) := decidable_of_iff _ kept_iff.symm

mutual

/-- A value that reading gives back, with `room` levels of nesting left: its floats are kept, and
its whole numbers are of sixty-four bits. -/
def Readable (room : ℕ) : Json → Prop
  | .integer n => -2 ^ 63 ≤ n ∧ n < 2 ^ 64
  | .real x => Kept x
  | .array items => 0 < room ∧ ReadableItems (room - 1) items
  | .object fields => 0 < room ∧ ReadableFields (room - 1) fields
  | _ => True

/-- Every item is readable. -/
def ReadableItems (room : ℕ) : List Json → Prop
  | [] => True
  | v :: rest => Readable room v ∧ ReadableItems room rest

/-- The value of every field is readable. -/
def ReadableFields (room : ℕ) : List (String × Json) → Prop
  | [] => True
  | (_, v) :: rest => Readable room v ∧ ReadableFields room rest

end

theorem readableItems_iff {room : ℕ} {items : List Json} :
    ReadableItems room items ↔ ∀ v ∈ items, Readable room v := by
  induction items with
  | nil => simp [ReadableItems]
  | cons v items ih => simp [ReadableItems, ih]

theorem readableFields_iff {room : ℕ} {fields : List (String × Json)} :
    ReadableFields room fields ↔ ∀ f ∈ fields, Readable room f.2 := by
  induction fields with
  | nil => simp [ReadableFields]
  | cons f fields ih => simp [ReadableFields, ih]

theorem readable_array {room : ℕ} {items : List Json} :
    Readable room (.array items) ↔ 0 < room ∧ ∀ v ∈ items, Readable (room - 1) v := by
  rw [Readable, readableItems_iff]

theorem readable_object {room : ℕ} {fields : List (String × Json)} :
    Readable room (.object fields) ↔ 0 < room ∧ ∀ f ∈ fields, Readable (room - 1) f.2 := by
  rw [Readable, readableFields_iff]

mutual

/-- The draft of a readable value settles to the value. -/
theorem settle_ofJson : ∀ {room : ℕ} (v : Json), Readable room v →
    (Draft.ofJson v).settle room = .ok v
  | _, .null, _ => rfl
  | _, .bool _, _ => rfl
  | _, .integer n, h => by
    rw [Draft.ofJson, Draft.settle, Numeral.value?, Numeral.integer?_ofInt h.1 h.2]
  | _, .real x, h => by
    obtain ⟨hx, hfloat⟩ := kept_iff.mp h
    rw [Draft.ofJson, Draft.ofReal, if_pos hx, Draft.settle, Numeral.value?, Numeral.ofFloat,
      Numeral.integer?_ofDecimal, ← Numeral.ofFloat, hfloat]
    rfl
  | _, .string _, _ => rfl
  | room, .array items, h => by
    obtain ⟨hroom, hitems⟩ := h
    simp only [Draft.ofJson, Draft.settle, if_neg hroom.ne', settle_ofItems items hitems]
  | room, .object fields, h => by
    obtain ⟨hroom, hfields⟩ := h
    simp only [Draft.ofJson, Draft.settle, if_neg hroom.ne', settle_ofFields fields hfields]

theorem settle_ofItems : ∀ {room : ℕ} (items : List Json), ReadableItems room items →
    Draft.settleItems room (Draft.ofItems items) = .ok items
  | _, [], _ => rfl
  | _, v :: items, h => by
    rw [Draft.ofItems, Draft.settleItems, settle_ofJson v h.1, settle_ofItems items h.2]

theorem settle_ofFields : ∀ {room : ℕ} (fields : List (String × Json)), ReadableFields room fields →
    Draft.settleFields room (Draft.ofFields fields) = .ok fields
  | _, [], _ => rfl
  | _, (name, v) :: fields, h => by
    rw [Draft.ofFields, Draft.settleFields, settle_ofJson v h.1, settle_ofFields fields h.2]

end

/-- **A readable value comes back from its text.** -/
theorem read_text {v : Json} (h : Readable maxDepth v) : read v.text = .ok v := by
  rw [read, draft_text, settle_ofJson v h]
  rfl

/-- A readable value comes back from its text over several lines. -/
theorem read_spread {v : Json} (h : Readable maxDepth v) :
    read (String.ofList (v.spread 0)) = .ok v := by
  rw [read, draft_spread, settle_ofJson v h]
  rfl

/-- What a text reads as decides what it reads as in a known shape. -/
theorem readAs_eq {β : Type} {fits : Json → Option β} {text : String} {v : Json}
    (h : read text = .ok v) : readAs fits text = (fits v).elim (.error .misfit) .ok := by
  unfold read at h
  unfold readAs
  cases hsettle : (draft text).1.settle maxDepth with
  | error f => simp [hsettle] at h
  | ok w =>
    simp only [hsettle] at h ⊢
    split at h
    · next hrest =>
      cases h
      cases fits v with
      | none => rfl
      | some b => exact if_pos hrest
    · cases h

end Toolpath.Json
