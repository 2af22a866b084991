import AgenticRag.Ingestion.Indexer
import AgenticRag.Ingestion.ObjectUris

/-!
# The figures of a run

The sink of the indexer numbers the figures of a run, stores their crops and puts the URIs
into the metadata of their elements.  The numbers, and so the names and the URIs, are
distinct, whatever the pages are.
-/

namespace AgenticRag.Figures

open AgenticRag.Ingestion (ChunkType Command StoredObject figureId)
open AgenticRag.ObjectStore

/-! ## The sink -/

/-- An element of the parser with the crop in its metadata. -/
structure Element where
  kind : ChunkType
  content : String
  page : Option ℕ
  imagePng : Option (List UInt8)

/-- An element whose crop is replaced by an `image_uri`. -/
structure Resolved where
  kind : ChunkType
  content : String
  page : Option ℕ
  imageUri : Option String

/-- `fig_counter["n"]` and the objects of the store. -/
structure SinkState where
  count : ℕ := 0
  objects : Objects (List UInt8)

section Sink

variable (caption : List UInt8 → ChunkType → Option ℕ → Option String → String)
variable (documentId : Uuid)

/-- `_figure_sink`: the state, the content and the URI. -/
def figureSink (state : SinkState) (element : Element) : SinkState × String × Option String :=
  match element.imagePng with
  | none => (state, element.content, none)
  | some png =>
      if png = [] then (state, element.content, none)
      else
        let count := state.count + 1
        let written := putFigure state.objects documentId (figureId element.page count) png
        let fallback := if element.content = "" then none else some element.content
        ({ count := count, objects := written.1 },
          caption png element.kind element.page fallback, some written.2)

/-- One round of `_resolve_figures`. -/
def resolveFigure (state : SinkState) (element : Element) : SinkState × Resolved :=
  match element.imagePng with
  | none => (state, ⟨element.kind, element.content, element.page, none⟩)
  | some _ =>
      let result := figureSink caption documentId state element
      (result.1, ⟨element.kind, result.2.1, element.page, result.2.2.filter (· ≠ "")⟩)

/-- `_resolve_figures` -/
def resolveFigures (state : SinkState) : List Element → SinkState × List Resolved
  | [] => (state, [])
  | element :: rest =>
      let first := resolveFigure caption documentId state element
      let later := resolveFigures first.1 rest
      (later.1, first.2 :: later.2)

/-- The URIs of a run. -/
def imageUris (resolved : List Resolved) : List String :=
  resolved.filterMap (·.imageUri)

end Sink

/-! ## Numbers -/

/-- A figure with its number in the run. -/
structure Figure where
  count : ℕ
  page : Option ℕ
  png : List UInt8

def Element.crop (element : Element) : Option (List UInt8) :=
  element.imagePng.filter (· ≠ [])

/-- The figures among the elements, behind the first `count` ones. -/
def figures (count : ℕ) : List Element → List Figure
  | [] => []
  | element :: rest =>
      match element.crop with
      | none => figures count rest
      | some png => ⟨count + 1, element.page, png⟩ :: figures (count + 1) rest

def Figure.object (documentId : Uuid) (figure : Figure) : StoredObject :=
  ⟨.figures, documentId, figureId figure.page figure.count⟩

/-- The URI `put_figure` returns for the figure. -/
def Figure.uri (documentId : Uuid) (figure : Figure) : String :=
  toUri (location (figure.object documentId)).1 (location (figure.object documentId)).2

/-- The objects with the one of the figure. -/
def Figure.storeIn (documentId : Uuid) (held : StoredObject → Option (List UInt8))
    (figure : Figure) : StoredObject → Option (List UInt8) :=
  Function.update held (figure.object documentId) (some figure.png)

/-- The numbers go up by one. -/
theorem map_count_figures (count : ℕ) (elements : List Element) :
    (figures count elements).map Figure.count =
      List.range' (count + 1) (figures count elements).length := by
  induction elements generalizing count with
  | nil => rfl
  | cons element elements ih =>
    rw [figures]
    cases element.crop with
    | none => exact ih count
    | some png => rw [List.map_cons, ih, List.length_cons, List.range'_succ]

/-- The commands of the run put the figures under the same numbers. -/
theorem figuresFrom_figures {count : ℕ} {elements : List Element} {figure : Figure}
    {rest : List Figure} (hfigures : figures count elements = figure :: rest) :
    Command.figuresFrom count ((figures count elements).map Figure.page) =
      .stageCaptioning figure.count figure.page (rest.map Figure.page) := by
  have hcounts := map_count_figures count elements
  rw [hfigures, List.map_cons, List.length_cons, List.range'_succ, List.cons.injEq] at hcounts
  rw [hfigures, List.map_cons, Command.figuresFrom, hcounts.1]

/-! ## Names -/

theorem toList_figureId (page : Option ℕ) (count : ℕ) :
    (figureId page count).toList = 'p' :: (Nat.toDigits 10 (page.getD 0) ++
      '-' :: (Nat.toDigits 10 count).leftpad 3 '0') := by
  simp [figureId]

theorem hyphen_notMem_toDigits (number : ℕ) : '-' ∉ Nat.toDigits 10 number := by
  intro hmem
  exact absurd (Nat.isDigit_of_mem_toDigits (by decide) (by decide) hmem) (by decide)

/-- The padding does not change the number. -/
theorem ofDigitChars_leftpad (count : ℕ) :
    Nat.ofDigitChars 10 ((Nat.toDigits 10 count).leftpad 3 '0') 0 = count := by
  rw [List.leftpad, Nat.ofDigitChars_append, Nat.ofDigitChars_replicate_zero, Nat.mul_zero,
    Nat.ofDigitChars_ten_toDigits]

/-- Figures of different numbers have different names, beyond three digits as well. -/
theorem figureId_count {left right : Option ℕ} {first second : ℕ}
    (heq : figureId left first = figureId right second) : first = second := by
  have hbehind : ∀ page count, (figureId page count).toList.dropWhile (· ≠ '-') =
      '-' :: (Nat.toDigits 10 count).leftpad 3 '0' := by
    intro page count
    have hfront : ∀ char ∈ 'p' :: Nat.toDigits 10 (page.getD 0), decide (char ≠ '-') = true := by
      intro char hchar
      apply decide_eq_true
      rintro rfl
      cases List.mem_cons.mp hchar with
      | inl hletter => exact absurd hletter (by decide)
      | inr hdigit => exact hyphen_notMem_toDigits _ hdigit
    rw [toList_figureId, ← List.cons_append, List.dropWhile_append_of_pos hfront]
    rfl
  have hnumbers := hbehind left first
  rw [heq, hbehind, List.cons.injEq] at hnumbers
  rw [← ofDigitChars_leftpad first, ← hnumbers.2, ofDigitChars_leftpad]

theorem object_count {documentId : Uuid} {left right : Figure}
    (heq : left.object documentId = right.object documentId) : left.count = right.count :=
  figureId_count (congrArg StoredObject.name heq)

/-- What tells the figures apart by their numbers has no duplicates either. -/
theorem nodup_map_figures {β : Type} {name : Figure → β} (count : ℕ) (elements : List Element)
    (hname : ∀ left right, name left = name right → left.count = right.count) :
    ((figures count elements).map name).Nodup := by
  have hcounts : ((figures count elements).map Figure.count).Nodup := by
    rw [map_count_figures]
    exact List.nodup_range'
  apply List.Nodup.map_on _ hcounts.of_map
  intro left hleft right hright heq
  exact List.inj_on_of_nodup_map hcounts hleft hright (hname left right heq)

theorem nodup_objects (documentId : Uuid) (count : ℕ) (elements : List Element) :
    ((figures count elements).map (Figure.object documentId)).Nodup :=
  nodup_map_figures count elements fun _ _ heq => object_count heq

/-! ## Runs -/

section Runs

variable (caption : List UInt8 → ChunkType → Option ℕ → Option String → String)
variable (documentId : Uuid)

/-- An element without a crop leaves the state as it is. -/
theorem resolveFigure_none (state : SinkState) {element : Element}
    (hcrop : element.crop = none) :
    (resolveFigure caption documentId state element).1 = state ∧
      (resolveFigure caption documentId state element).2.imageUri = none := by
  cases himage : element.imagePng with
  | none => simp [resolveFigure, himage]
  | some png =>
    have hempty : png = [] := by simpa [Element.crop, himage] using hcrop
    simp [resolveFigure, figureSink, himage, hempty]

/-- A figure is stored under the next number. -/
theorem resolveFigure_some (state : SinkState) {element : Element} {png : List UInt8}
    (hcrop : element.crop = some png) :
    (resolveFigure caption documentId state element).1 =
        ⟨state.count + 1, (putFigure state.objects documentId
          (figureId element.page (state.count + 1)) png).1⟩ ∧
      (resolveFigure caption documentId state element).2.imageUri =
        some (Figure.uri documentId ⟨state.count + 1, element.page, png⟩) := by
  obtain ⟨himage, hne⟩ : element.imagePng = some png ∧ png ≠ [] := by
    simpa [Element.crop, Option.filter_eq_some_iff] using hcrop
  have huri : Figure.uri documentId ⟨state.count + 1, element.page, png⟩ ≠ "" := by
    intro hempty
    have hlist := congrArg String.toList hempty
    rw [Figure.uri, toList_toUri] at hlist
    simp at hlist
  have hkept := Option.filter_some_pos (p := fun uri => decide (uri ≠ "")) (decide_eq_true huri)
  constructor
  · simp only [resolveFigure, figureSink, himage, if_neg hne]
  · simp only [resolveFigure, figureSink, himage, if_neg hne]
    exact hkept

theorem imageUris_cons (first : Resolved) (rest : List Resolved) :
    imageUris (first :: rest) = first.imageUri.toList ++ imageUris rest := by
  cases huri : first.imageUri <;> simp [imageUris, huri]

/-- The metadata of the elements hold the URIs of the figures, in order. -/
theorem imageUris_resolveFigures (state : SinkState) (elements : List Element) :
    imageUris (resolveFigures caption documentId state elements).2 =
      (figures state.count elements).map (Figure.uri documentId) := by
  induction elements generalizing state with
  | nil => rfl
  | cons element elements ih =>
    rw [resolveFigures, imageUris_cons, ih]
    cases hcrop : element.crop with
    | none =>
      obtain ⟨hstate, huri⟩ := resolveFigure_none caption documentId state hcrop
      simp only [hstate, huri, figures, hcrop, Option.toList_none, List.nil_append]
    | some png =>
      obtain ⟨hstate, huri⟩ := resolveFigure_some caption documentId state hcrop
      simp only [hstate, huri, figures, hcrop, List.map_cons, Option.toList_some,
        List.singleton_append]

/-- The store holds the crops of the figures, and what it held before. -/
theorem holds_resolveFigures (state : SinkState) (elements : List Element) :
    holds (resolveFigures caption documentId state elements).1.objects =
      (figures state.count elements).foldl (Figure.storeIn documentId)
        (holds state.objects) := by
  induction elements generalizing state with
  | nil => rfl
  | cons element elements ih =>
    rw [resolveFigures, ih]
    cases hcrop : element.crop with
    | none =>
      obtain ⟨hstate, -⟩ := resolveFigure_none caption documentId state hcrop
      simp only [hstate, figures, hcrop]
    | some png =>
      obtain ⟨hstate, -⟩ := resolveFigure_some caption documentId state hcrop
      simp only [hstate, figures, hcrop, List.foldl_cons, holds_putFigure, Figure.storeIn,
        Figure.object]

/-- Updates of other objects leave an object alone. -/
theorem foldl_storeIn_of_notMem {objects : List Figure} {held : StoredObject → Option (List UInt8)}
    {object : StoredObject} (hother : object ∉ objects.map (Figure.object documentId)) :
    objects.foldl (Figure.storeIn documentId) held object = held object := by
  induction objects generalizing held with
  | nil => rfl
  | cons figure rest ih =>
    rw [List.map_cons, List.mem_cons, not_or] at hother
    rw [List.foldl_cons, ih hother.2, Figure.storeIn, Function.update_of_ne hother.1]

/-- After a run the store holds the crop of every figure. -/
theorem holds_figure (state : SinkState) (elements : List Element) {figure : Figure}
    (hfigure : figure ∈ figures state.count elements) :
    holds (resolveFigures caption documentId state elements).1.objects
      (figure.object documentId) = some figure.png := by
  rw [holds_resolveFigures]
  have hnodup := nodup_objects documentId state.count elements
  obtain ⟨before, behind, hsplit⟩ := List.append_of_mem hfigure
  rw [hsplit, List.map_append, List.map_cons, List.nodup_append] at hnodup
  rw [hsplit, List.foldl_append, List.foldl_cons,
    foldl_storeIn_of_notMem documentId (List.nodup_cons.mp hnodup.2.1).1, Figure.storeIn,
    Function.update_self]

end Runs

end AgenticRag.Figures
