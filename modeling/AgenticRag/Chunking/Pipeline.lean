import AgenticRag.Chunking.Boilerplate
import AgenticRag.Chunking.Coverage
import AgenticRag.Chunking.DoclingTables

/-!
# From a converted document to its chunks

`parse_docling` turns the items of a converted document into elements under the heading
above them, and `run_pipeline` strips repeated lines, hands the figures to the sink and
builds the chunks.  What the chunks say of titles, pages and texts is read off the items.
-/

namespace AgenticRag.Chunker

open AgenticRag.PyString AgenticRag.Normalize
open AgenticRag.Ingestion (ChunkType)

/-! ## The converted document -/

/-- The place of an item on a page. -/
structure Prov where
  pageNo : Option ℕ
  bbox : Option Bbox

/-- `_prov` -/
def readProv : List Prov → Option ℕ × Option Bbox
  | [] => (none, none)
  | prov :: _ => (prov.pageNo, prov.bbox)

/-- An item of the document.  The image of a picture is what `get_image` and the encoder
make of it, or the exception. -/
inductive Item where
  | heading (text : Option Text)
  | table (grid : Option (List (List GridCell))) (caption : Option Text) (prov : List Prov)
  | picture (caption : Option Text) (image : Except String (Option (List UInt8)))
      (prov : List Prov)
  | text (text : Option Text) (prov : List Prov)
  | other

namespace Item

/-- The section title that a heading sets; a blank one sets none. -/
def title : Item → Option Text
  | .heading content => readCaption content
  | .table _ _ _ | .picture _ _ _ | .text _ _ | .other => none

def page : Item → Option ℕ
  | .table _ _ prov | .picture _ _ prov | .text _ prov => (readProv prov).1
  | .heading _ | .other => none

/-- The text of a text item. -/
def body : Item → Option Text
  | .text content _ => readCaption content
  | .heading _ | .table _ _ _ | .picture _ _ _ | .other => none

end Item

/-! ## `parse_docling` -/

/-- An element with the crop in its metadata. -/
structure Parsed where
  element : ParsedElement
  imagePng : Option (List UInt8) := none

/-- `_figure_element` -/
def figureElement (caption : Option Text) (image : Except String (Option (List UInt8)))
    (page : Option ℕ) (bbox : Option Bbox) (sectionTitle : Option Text) : Option Parsed :=
  let png := match image with
    | .ok png => png
    | .error _ => none
  if png = none ∧ readCaption caption = none then none
  else some
    { element :=
        { kind := .image
          content := (readCaption caption).getD []
          page := page
          sectionTitle := sectionTitle
          bbox := bbox
          metadata := { caption := readCaption caption } }
      imagePng := png.filter (· ≠ []) }

/-- The element of an item under this section title. -/
def itemElement (sectionTitle : Option Text) : Item → Option Parsed
  | .heading _ | .other => none
  | .table grid caption prov => some
      { element := tableElement (grid.getD []) caption (readProv prov).1 (readProv prov).2
          sectionTitle }
  | .picture caption image prov =>
      figureElement caption image (readProv prov).1 (readProv prov).2 sectionTitle
  | .text text prov => (readCaption text).map fun content =>
      { element :=
          { kind := .text
            content := content
            page := (readProv prov).1
            sectionTitle := sectionTitle
            bbox := (readProv prov).2 } }

/-- One round of the loop over the items. -/
def parseStep (state : Option Text × List Parsed) (item : Item) : Option Text × List Parsed :=
  (item.title.or state.1, state.2 ++ (itemElement state.1 item).toList)

/-- `parse_docling` behind the conversion. -/
def parseDocling (items : List Item) : List Parsed :=
  (items.foldl parseStep (none, [])).2

/-! ## `run_pipeline` -/

/-- `_denoise`, which leaves the crops alone. -/
def denoiseParsed (parsed : List Parsed) : List Parsed :=
  List.zipWith (fun element entry => { entry with element := element })
    (denoise (parsed.map Parsed.element)) parsed

/-- `max(pages) if pages else 1` -/
def pageCount (elements : List ParsedElement) : ℕ :=
  ((elements.filterMap ParsedElement.page).max?).getD 1

/-- A figure sink with a state: the content the element gets and the URI, or an exception. -/
abbrev Sink (σ : Type) :=
  σ → ParsedElement → List UInt8 → Except String (σ × Text × Option String)

section

variable {σ : Type}

/-- One round of `_resolve_figures`. -/
def resolveFigure (sink : Option (Sink σ)) (state : σ) (entry : Parsed) :
    Except String (σ × ParsedElement) :=
  match sink, entry.imagePng with
  | some sink, some png => do
      let (after, content, uri) ← sink state entry.element png
      .ok (after, { entry.element with
        content := content
        metadata := { entry.element.metadata with
          others := entry.element.metadata.others ++
            (uri.filter (· ≠ "")).toList.map fun uri => ("image_uri", uri) } })
  | _, _ => .ok (state, entry.element)

/-- `_resolve_figures` -/
def resolveFigures (sink : Option (Sink σ)) : σ → List Parsed → Except String (List ParsedElement)
  | _, [] => .ok []
  | state, entry :: rest => do
      let (after, element) ← resolveFigure sink state entry
      let later ← resolveFigures sink after rest
      .ok (element :: later)

/-- `run_pipeline` for the file types of the document converter. -/
def runPipeline (settings : ChunkSettings) (isWord : Char → Bool) (sink : Option (Sink σ))
    (state : σ) (conversion : Except String (List Item)) :
    Except String (List ChunkData × ℕ) := do
  let items ← conversion
  let elements := denoiseParsed (parseDocling items)
  let resolved ← resolveFigures sink state elements
  .ok (buildChunksV2 settings isWord resolved, pageCount (elements.map Parsed.element))

end

/-! ## The items under their headings -/

/-- The heading above the items that come next. -/
def lastTitle (items : List Item) : Option Text :=
  (items.filterMap Item.title).getLast?

/-- Every item with the title of the last heading before it that is not blank. -/
def titled (items : List Item) : List (Item × Option Text) :=
  items.mapIdx fun place item => (item, lastTitle (items.take place))

theorem lastTitle_concat (items : List Item) (item : Item) :
    lastTitle (items ++ [item]) = item.title.or (lastTitle items) := by
  rw [lastTitle, lastTitle, List.filterMap_append]
  cases htitle : item.title with
  | none => simp [htitle]
  | some title => simp [htitle]

theorem titled_concat (items : List Item) (item : Item) :
    titled (items ++ [item]) = titled items ++ [(item, lastTitle items)] := by
  rw [titled, List.mapIdx_concat, List.take_left', titled]
  · congr 1
    rw [List.mapIdx_eq_mapIdx_iff]
    intro place hplace
    rw [List.take_append_of_le_length (Nat.le_of_lt hplace)]
  · rfl

/-- The element of an item under its title. -/
def sourceElement (source : Item × Option Text) : Option Parsed :=
  itemElement source.2 source.1

/-- The loop keeps the title of the last heading and the elements of the items so far. -/
theorem foldl_parseStep (items : List Item) :
    items.foldl parseStep (none, []) =
      (lastTitle items, (titled items).filterMap sourceElement) := by
  induction items using List.reverseRecOn with
  | nil => rfl
  | append_singleton items item ih =>
      rw [List.foldl_append, ih, List.foldl_cons, List.foldl_nil, parseStep, lastTitle_concat,
        titled_concat, List.filterMap_append]
      cases helement : itemElement (lastTitle items) item with
      | none => simp [sourceElement, helement]
      | some element => simp [sourceElement, helement]

theorem parseDocling_eq (items : List Item) :
    parseDocling items = (titled items).filterMap sourceElement := by
  rw [parseDocling, foldl_parseStep]

/-! ## What an element keeps of its item -/

theorem bind_eq_ok {ε α β : Type} {first : Except ε α} {next : α → Except ε β} {result : β}
    (hbind : (first >>= next) = .ok result) :
    ∃ value, first = .ok value ∧ next value = .ok result := by
  cases first with
  | error failure => cases hbind
  | ok value => exact ⟨value, rfl, hbind⟩

/-- The item has an element. -/
def Emits (source : Item × Option Text) : Prop :=
  (sourceElement source).isSome = true

instance : DecidablePred Emits := fun source =>
  inferInstanceAs (Decidable ((sourceElement source).isSome = true))

/-- The text of an item without the repeated lines. -/
def Item.kept (lines : List Text) (item : Item) : Option Text :=
  item.body.map fun text =>
    if item.page ≠ none ∧ item.page ≠ some 0 then withoutLines lines text else text

/-- The element is that of the item, under its title; only the content of a figure may have
been replaced. -/
structure Renders (lines : List Text) (source : Item × Option Text) (element : ParsedElement) :
    Prop where
  title : element.sectionTitle = source.2
  page : element.page = source.1.page
  kind : element.kind = .text ↔ source.1.body ≠ none
  content : ∀ text ∈ source.1.kept lines, element.content = text

section Elements

variable {lines : List Text} {source : Item × Option Text} {entry : Parsed}

theorem figureElement_eq_some {caption : Option Text}
    {image : Except String (Option (List UInt8))} {page : Option ℕ} {bbox : Option Bbox}
    {sectionTitle : Option Text}
    (hentry : figureElement caption image page bbox sectionTitle = some entry) :
    entry.element.kind = .image ∧ entry.element.page = page ∧
      entry.element.sectionTitle = sectionTitle := by
  unfold figureElement at hentry
  dsimp only at hentry
  split_ifs at hentry
  cases hentry
  exact ⟨rfl, rfl, rfl⟩

theorem cleaned_other {element : ParsedElement} (hother : element.kind ≠ .text) :
    cleaned lines element = element :=
  if_neg fun hpage => hother hpage.1

theorem renders_itemElement (hentry : sourceElement source = some entry) :
    Renders lines source (cleaned lines entry.element) := by
  obtain ⟨item, title⟩ := source
  cases item with
  | heading text => cases hentry
  | other => cases hentry
  | table grid caption prov =>
      cases hentry
      rw [cleaned_other (by exact ChunkType.noConfusion)]
      exact ⟨rfl, rfl, by simp [tableElement, Item.body], by simp [Item.kept, Item.body]⟩
  | picture caption image prov =>
      obtain ⟨hkind, hpage, htitle⟩ := figureElement_eq_some hentry
      rw [cleaned_other (by rw [hkind]; exact ChunkType.noConfusion)]
      exact ⟨htitle, hpage, by simp [hkind, Item.body], by simp [Item.kept, Item.body]⟩
  | text text prov =>
      obtain ⟨content, hcontent, rfl⟩ := Option.map_eq_some_iff.mp hentry
      rw [cleaned]
      split_ifs with hpage
      · refine ⟨rfl, rfl, by simp [Item.body, hcontent], ?_⟩
        intro kept hkept
        have hsome : Item.page (.text text prov) ≠ none ∧
            Item.page (.text text prov) ≠ some 0 := hpage.2
        dsimp only at hkept
        rw [Item.kept, Item.body, hcontent, Option.map_some, if_pos hsome] at hkept
        exact Option.some.inj hkept
      · refine ⟨rfl, rfl, by simp [Item.body, hcontent], ?_⟩
        intro kept hkept
        have hnone : ¬ (Item.page (.text text prov) ≠ none ∧
            Item.page (.text text prov) ≠ some 0) := fun hboth => hpage ⟨rfl, hboth⟩
        dsimp only at hkept
        rw [Item.kept, Item.body, hcontent, Option.map_some, if_neg hnone] at hkept
        exact Option.some.inj hkept

/-- Only a figure has a crop. -/
theorem body_of_crop (hentry : sourceElement source = some entry)
    (hcrop : entry.imagePng ≠ none) : source.1.body = none := by
  obtain ⟨item, title⟩ := source
  cases item with
  | heading text => rfl
  | other => rfl
  | table grid caption prov => rfl
  | picture caption image prov => rfl
  | text text prov =>
      obtain ⟨content, _, rfl⟩ := Option.map_eq_some_iff.mp hentry
      exact absurd rfl hcrop

/-- The entry without the repeated lines. -/
def Parsed.stripped (lines : List Text) (entry : Parsed) : Parsed :=
  { entry with element := cleaned lines entry.element }

variable {σ : Type} {sink : Option (Sink σ)} {state after : σ} {element : ParsedElement}

/-- The sink changes a figure's content and metadata only. -/
theorem renders_resolveFigure (hentry : sourceElement source = some entry)
    (hresolve : resolveFigure sink state (entry.stripped lines) = .ok (after, element)) :
    Renders lines source element := by
  have hrenders := @renders_itemElement lines source entry hentry
  unfold resolveFigure at hresolve
  split at hresolve
  · next _ found png hpng =>
      obtain ⟨⟨next, content, uri⟩, _, hsame⟩ := bind_eq_ok hresolve
      cases hsame
      have hsome : entry.imagePng = some png := hpng
      have hbody := body_of_crop hentry (by rw [hsome]; exact Option.some_ne_none png)
      refine ⟨hrenders.title, hrenders.page, hrenders.kind, ?_⟩
      intro text htext
      rw [Item.kept, hbody] at htext
      cases htext
  · cases hresolve
    exact hrenders

theorem renders_resolveFigures {sources : List (Item × Option Text)}
    {resolved : List ParsedElement}
    (hresolve : resolveFigures sink state
      ((sources.filterMap sourceElement).map (Parsed.stripped lines)) = .ok resolved) :
    List.Forall₂ (Renders lines) (sources.filter Emits) resolved := by
  induction sources generalizing state resolved with
  | nil =>
      cases hresolve
      exact List.Forall₂.nil
  | cons source sources ih =>
      cases hentry : sourceElement source with
      | none =>
          have hsilent : ¬ Emits source := by
            rw [Emits, hentry]
            decide
          rw [List.filterMap_cons_none hentry] at hresolve
          rw [List.filter_cons_of_neg (by simpa using hsilent)]
          exact ih hresolve
      | some entry =>
          have hemits : Emits source := by
            rw [Emits, hentry]
            rfl
          rw [List.filterMap_cons_some hentry, List.map_cons, resolveFigures] at hresolve
          rw [List.filter_cons_of_pos (by simpa using hemits)]
          obtain ⟨⟨next, element⟩, hfirst, hrest⟩ := bind_eq_ok hresolve
          obtain ⟨later, hlater, hsame⟩ := bind_eq_ok hrest
          cases hsame
          exact List.Forall₂.cons (renders_resolveFigure hentry hfirst) (ih hlater)

end Elements

theorem denoiseParsed_eq (parsed : List Parsed) : denoiseParsed parsed =
    parsed.map (Parsed.stripped (removedLines (parsed.map Parsed.element))) := by
  rw [denoiseParsed, denoise_eq, List.map_map, List.zipWith_map_left, List.zipWith_self]
  rfl

/-- What a successful run has done. -/
theorem runPipeline_ok {σ : Type} {settings : ChunkSettings} {isWord : Char → Bool}
    {sink : Option (Sink σ)} {state : σ} {conversion : Except String (List Item)}
    {chunks : List ChunkData} {count : ℕ}
    (hrun : runPipeline settings isWord sink state conversion = .ok (chunks, count)) :
    ∃ items lines resolved, conversion = .ok items ∧
      lines = removedLines ((parseDocling items).map Parsed.element) ∧
      List.Forall₂ (Renders lines) ((titled items).filter Emits) resolved ∧
      chunks = buildChunksV2 settings isWord resolved ∧
      count = pageCount ((denoiseParsed (parseDocling items)).map Parsed.element) := by
  obtain ⟨items, hitems, hbody⟩ := bind_eq_ok hrun
  obtain ⟨resolved, hresolve, hsame⟩ := bind_eq_ok hbody
  cases hsame
  refine ⟨items, _, resolved, hitems, rfl, ?_, rfl, rfl⟩
  rw [denoiseParsed_eq, parseDocling_eq] at hresolve
  rw [parseDocling_eq]
  exact renders_resolveFigures hresolve

/-! ## Pages -/

theorem le_pageCount {elements : List ParsedElement} {element : ParsedElement}
    (helement : element ∈ elements) {page : ℕ} (hpage : element.page = some page) :
    page ≤ pageCount elements := by
  have hmem : page ∈ elements.filterMap ParsedElement.page :=
    List.mem_filterMap.mpr ⟨element, helement, hpage⟩
  rw [pageCount]
  cases hmax : (elements.filterMap ParsedElement.page).max? with
  | none =>
      rw [List.max?_eq_none_iff.mp hmax] at hmem
      cases hmem
  | some most => exact (List.max?_eq_some_iff.mp hmax).2 page hmem

/-- The page of every item that has an element counts. -/
theorem source_le_pageCount {items : List Item} {source : Item × Option Text}
    (hsource : source ∈ (titled items).filter Emits) {page : ℕ}
    (hpage : source.1.page = some page) :
    page ≤ pageCount ((denoiseParsed (parseDocling items)).map Parsed.element) := by
  obtain ⟨hmem, hemits⟩ := List.mem_filter.mp hsource
  obtain ⟨entry, hentry⟩ := Option.isSome_iff_exists.mp (of_decide_eq_true hemits)
  rw [denoiseParsed_eq]
  generalize removedLines ((parseDocling items).map Parsed.element) = lines
  have hparsed : entry ∈ parseDocling items := by
    rw [parseDocling_eq]
    exact List.mem_filterMap.mpr ⟨source, hmem, hentry⟩
  have helement : (entry.stripped lines).element ∈
      ((parseDocling items).map (Parsed.stripped lines)).map Parsed.element :=
    List.mem_map_of_mem (List.mem_map_of_mem hparsed)
  apply le_pageCount helement
  rw [← hpage]
  exact (renders_itemElement hentry).page

theorem pageOfPlace_mem {parts : List (Text × Option ℕ)} (hne : parts ≠ []) (place : ℕ) :
    ∃ part ∈ parts, pageOfPlace parts place = part.2 := by
  induction parts generalizing place with
  | nil => exact absurd rfl hne
  | cons part parts ih =>
      cases parts with
      | nil => exact ⟨part, List.mem_cons_self, rfl⟩
      | cons next parts =>
          rw [pageOfPlace]
          split_ifs with hhere
          · exact ⟨part, List.mem_cons_self, rfl⟩
          · obtain ⟨found, hfound, hpage⟩ := ih (List.cons_ne_nil _ _) (place - (part.1.length + 2))
            exact ⟨found, List.mem_cons_of_mem _ hfound, hpage⟩

/-- A chunk of a run is on the page of one of its elements. -/
theorem chunkTextRun_page {settings : ChunkSettings} {isWord : Char → Bool}
    {run : List ParsedElement} {chunk : ChunkData}
    (hchunk : chunk ∈ chunkTextRun settings isWord run) :
    ∃ element ∈ run, chunk.pageNumber = element.page := by
  have hparts : partsOf isWord run ≠ [] := by
    intro hnone
    rw [chunkTextRun, sectionText, hnone] at hchunk
    cases hchunk
  have hpage := List.mem_map_of_mem (f := ChunkData.pageNumber) hchunk
  rw [chunkTextRun_pages] at hpage
  obtain ⟨place, _, hplace⟩ := List.mem_map.mp hpage
  obtain ⟨part, hpart, hsame⟩ := pageOfPlace_mem hparts place
  obtain ⟨element, helement, hsome⟩ := List.mem_filterMap.mp hpart
  dsimp only at hsome
  split_ifs at hsome
  refine ⟨element, helement, ?_⟩
  rw [← hplace, hsame, ← Option.some.inj hsome]

/-! ## The items of a segment -/

/-- What the chunks of a group of items say. -/
structure Traced (isWord : Char → Bool) (lines : List Text) (group : List (Item × Option Text))
    (chunks : List ChunkData) : Prop where
  title : ∀ chunk ∈ chunks, ∀ source ∈ group, chunk.sectionTitle = source.2
  page : ∀ chunk ∈ chunks, ∃ source ∈ group, chunk.pageNumber = source.1.page
  text : ∀ source ∈ group, ∀ text ∈ source.1.kept lines,
    ∀ paragraph ∈ elementParagraphs isWord { kind := .text, content := text },
      ∀ place, ∀ hplace : place < paragraph.length, isSpace paragraph[place] = false →
        ∃ unit, Covers paragraph unit place ∧ ∃ chunk ∈ chunks, unit <:+: chunk.rawContent

/-- A group of text items, or a single other item. -/
def Grouped (group : List (Item × Option Text)) : Prop :=
  group ≠ [] ∧ ((∀ source ∈ group, source.1.body ≠ none) ∨
    ∃ source, group = [source] ∧ source.1.body = none)

/-- Neighbouring texts of two groups are under different titles. -/
def Parted (first second : List (Item × Option Text)) : Prop :=
  ∀ left ∈ first, ∀ right ∈ second, left.1.body ≠ none → right.1.body ≠ none →
    left.2 ≠ right.2

theorem exists_groups {lines : List Text} {sources : List (Item × Option Text)}
    {segments : List Segment}
    (hsources : List.Forall₂ (Renders lines) sources (segments.flatMap Segment.elements)) :
    ∃ groups, groups.flatten = sources ∧
      List.Forall₂ (fun group segment => List.Forall₂ (Renders lines) group segment.elements)
        groups segments := by
  induction segments generalizing sources with
  | nil =>
      cases hsources
      exact ⟨[], rfl, List.Forall₂.nil⟩
  | cons segment segments ih =>
      rw [List.flatMap_cons] at hsources
      have hfront := List.forall₂_take_append _ _ _ hsources
      obtain ⟨groups, hgroups, hrest⟩ := ih (List.forall₂_drop_append _ _ _ hsources)
      refine ⟨sources.take segment.elements.length :: groups, ?_, List.Forall₂.cons hfront hrest⟩
      rw [List.flatten_cons, hgroups]
      exact List.take_append_drop _ _

section Partners

variable {α β : Type*} {rel : α → β → Prop} {left : List α} {right : List β}

theorem exists_left (hrel : List.Forall₂ rel left right) {second : β} (hsecond : second ∈ right) :
    ∃ first ∈ left, rel first second := by
  induction hrel with
  | nil => cases hsecond
  | cons hhead _ ih =>
      cases List.mem_cons.mp hsecond with
      | inl hsame => exact ⟨_, List.mem_cons_self, hsame ▸ hhead⟩
      | inr hlater =>
          obtain ⟨first, hfirst, hfound⟩ := ih hlater
          exact ⟨first, List.mem_cons_of_mem _ hfirst, hfound⟩

theorem exists_right (hrel : List.Forall₂ rel left right) {first : α} (hfirst : first ∈ left) :
    ∃ second ∈ right, rel first second := by
  obtain ⟨second, hsecond, hfound⟩ := exists_left hrel.flip hfirst
  exact ⟨second, hsecond, hfound⟩

end Partners

section Groups

variable {settings : ChunkSettings} {isWord : Char → Bool} {lines : List Text}
  {group : List (Item × Option Text)} {segment : Segment}

theorem traced_segment (hformed : segment.WellFormed)
    (hgroup : List.Forall₂ (Renders lines) group segment.elements) :
    Traced isWord lines group (segment.chunks settings isWord) := by
  cases segment with
  | run elements =>
      obtain ⟨hchunks, htexts⟩ := @run_sound settings isWord elements
      refine ⟨?_, ?_, ?_⟩
      · intro chunk hchunk source hsource
        obtain ⟨element, helement, hrenders⟩ := exists_right hgroup hsource
        rw [(hchunks chunk hchunk).2.1, ← hrenders.title]
        exact (hformed.2 element helement).2.symm
      · intro chunk hchunk
        obtain ⟨element, helement, hpage⟩ := chunkTextRun_page hchunk
        obtain ⟨source, hsource, hrenders⟩ := exists_left hgroup helement
        exact ⟨source, hsource, hpage.trans hrenders.page⟩
      · intro source hsource text htext paragraph hparagraph
        obtain ⟨element, helement, hrenders⟩ := exists_right hgroup hsource
        have hsame : elementParagraphs isWord { kind := .text, content := text } =
            elementParagraphs isWord element := by
          rw [elementParagraphs, elementParagraphs, hrenders.content text htext]
        rw [hsame] at hparagraph
        exact (htexts element helement).2 paragraph hparagraph
  | single element before =>
      obtain ⟨hchunks, _⟩ := @single_sound settings isWord element before
      have hpartner : ∀ source ∈ group, Renders lines source element := by
        intro source hsource
        obtain ⟨other, hother, hrenders⟩ := exists_right hgroup hsource
        exact List.mem_singleton.mp hother ▸ hrenders
      refine ⟨?_, ?_, ?_⟩
      · intro chunk hchunk source hsource
        exact (hchunks chunk hchunk).2.2.trans (hpartner source hsource).title
      · intro chunk hchunk
        obtain ⟨source, hsource, hrenders⟩ :=
          exists_left hgroup (List.mem_singleton.mpr rfl : element ∈ [element])
        exact ⟨source, hsource, (hchunks chunk hchunk).2.1.trans hrenders.page⟩
      · intro source hsource text htext
        have hbody : source.1.body = none := by
          by_contra hbody
          exact hformed ((hpartner source hsource).kind.mpr hbody)
        rw [Item.kept, hbody] at htext
        cases htext

theorem grouped_segment (hformed : segment.WellFormed)
    (hgroup : List.Forall₂ (Renders lines) group segment.elements) : Grouped group := by
  cases segment with
  | run elements =>
      refine ⟨?_, .inl ?_⟩
      · rintro rfl
        exact hformed.1 (List.forall₂_nil_left_iff.mp hgroup)
      · intro source hsource
        obtain ⟨element, helement, hrenders⟩ := exists_right hgroup hsource
        exact hrenders.kind.mp (hformed.2 element helement).1
  | single element before =>
      cases hgroup with
      | cons hrenders hrest =>
          cases hrest
          refine ⟨List.cons_ne_nil _ _, .inr ⟨_, rfl, ?_⟩⟩
          by_contra hbody
          exact hformed (hrenders.kind.mpr hbody)

theorem parted_segments {first second : List (Item × Option Text)} {left right : Segment}
    (hleft : left.WellFormed) (hright : right.WellFormed) (hfollows : left.Follows right)
    (hfirst : List.Forall₂ (Renders lines) first left.elements)
    (hsecond : List.Forall₂ (Renders lines) second right.elements) : Parted first second := by
  intro source hsource other hother hbody hotherBody
  obtain ⟨element, helement, hrenders⟩ := exists_right hfirst hsource
  obtain ⟨later, hlater, hlaterRenders⟩ := exists_right hsecond hother
  rw [← hrenders.title, ← hlaterRenders.title]
  cases left with
  | single element' before =>
      rw [List.mem_singleton.mp helement] at hrenders
      exact absurd (hrenders.kind.mpr hbody) hleft
  | run elements =>
      cases right with
      | single element' before =>
          rw [List.mem_singleton.mp hlater] at hlaterRenders
          exact absurd (hlaterRenders.kind.mpr hotherBody) hright
      | run others =>
          rw [(hleft.2 element helement).2, (hright.2 later hlater).2]
          exact hfollows

end Groups

theorem groups_segments {lines : List Text} {settings : ChunkSettings} {isWord : Char → Bool}
    {groups : List (List (Item × Option Text))} {segments : List Segment}
    (hgroups : List.Forall₂
      (fun group segment => List.Forall₂ (Renders lines) group segment.elements) groups segments)
    (hformed : ∀ segment ∈ segments, segment.WellFormed)
    (hchain : segments.IsChain Segment.Follows) :
    List.Forall₂ (Traced isWord lines) groups (segments.map (Segment.chunks settings isWord)) ∧
      (∀ group ∈ groups, Grouped group) ∧ groups.IsChain Parted := by
  induction hgroups with
  | nil => exact ⟨List.Forall₂.nil, by simp, List.isChain_nil⟩
  | @cons group segment groups segments hhead htail ih =>
      have hsegment := hformed segment List.mem_cons_self
      obtain ⟨htraced, hgrouped, hparted⟩ :=
        ih (fun later hlater => hformed later (List.mem_cons_of_mem _ hlater)) hchain.tail
      refine ⟨List.Forall₂.cons (traced_segment hsegment hhead) htraced, ?_, ?_⟩
      · intro found hfound
        cases List.mem_cons.mp hfound with
        | inl hsame => exact hsame ▸ grouped_segment hsegment hhead
        | inr hlater => exact hgrouped found hlater
      · cases htail with
        | nil => exact List.isChain_singleton group
        | @cons next later _ _ hnext _ =>
            rw [List.isChain_cons_cons] at hchain ⊢
            have hlater := hformed later (List.mem_cons_of_mem _ List.mem_cons_self)
            exact ⟨parted_segments hsegment hlater hchain.1 hhead hnext, hparted⟩

theorem mem_reindex {chunks : List ChunkData} {chunk : ChunkData} (hchunk : chunk ∈ reindex chunks) :
    ∃ original ∈ chunks, chunk.pageNumber = original.pageNumber := by
  obtain ⟨⟨original, index⟩, hentry, rfl⟩ := List.mem_map.mp hchunk
  exact ⟨original, List.fst_mem_of_mem_zipIdx hentry, rfl⟩

/-- The items that have an element are cut, in their order, into groups of text under one
title and single other items, and the chunks come group by group: with the title of the last
heading before the items, the page of one of them, and every character other than white space
of their normalised texts without the repeated lines.  No page is beyond the count. -/
theorem runPipeline_traced {σ : Type} {settings : ChunkSettings} {isWord : Char → Bool}
    {sink : Option (Sink σ)} {state : σ} {items : List Item} {chunks : List ChunkData}
    {count : ℕ} (hrun : runPipeline settings isWord sink state (.ok items) = .ok (chunks, count)) :
    ∃ lines groups parts,
      (∀ line, line ∈ lines ↔ OftenRepeated ((parseDocling items).map Parsed.element) line) ∧
      groups.flatten = (titled items).filter Emits ∧ chunks = reindex parts.flatten ∧
      List.Forall₂ (Traced isWord lines) groups parts ∧
      (∀ group ∈ groups, Grouped group) ∧ groups.IsChain Parted ∧
      ∀ chunk ∈ chunks, ∀ page, chunk.pageNumber = some page → page ≤ count := by
  obtain ⟨_, lines, resolved, hitems, hlines, hrenders, hchunks, hcount⟩ := runPipeline_ok hrun
  cases hitems
  obtain ⟨segments, hsegments, hbuilt⟩ := @buildChunksV2_segments settings isWord resolved
  rw [← hsegments.elements] at hrenders
  obtain ⟨groups, hflat, hgroups⟩ := exists_groups hrenders
  obtain ⟨htraced, hgrouped, hparted⟩ :=
    @groups_segments lines settings isWord _ _ hgroups hsegments.wellFormed hsegments.chain
  rw [hbuilt, List.flatMap_def] at hchunks
  refine ⟨lines, groups, _, ?_, hflat, hchunks, htraced, hgrouped, hparted, ?_⟩
  · intro line
    rw [hlines]
    exact mem_removedLines_iff
  · intro chunk hchunk page hpage
    rw [hchunks] at hchunk
    obtain ⟨original, horiginal, hsame⟩ := mem_reindex hchunk
    obtain ⟨part, hpart, hmem⟩ := List.mem_flatten.mp horiginal
    obtain ⟨group, hgroup, htrace⟩ := exists_left htraced hpart
    obtain ⟨source, hsource, hfrom⟩ := htrace.page original hmem
    have hemits : source ∈ (titled items).filter Emits := by
      rw [← hflat]
      exact List.mem_flatten_of_mem hgroup hsource
    rw [hcount]
    exact source_le_pageCount hemits (by rw [← hfrom, ← hsame, hpage])

/-- A page of text before a section of a text and a figure. -/
def byLaws : List Item :=
  [.text (some "Vorwort".toList) [⟨some 1, none⟩], .heading (some " Satzung ".toList),
    .text (some "Die Satzung gilt.".toList) [⟨some 2, none⟩],
    .picture (some "Wappen".toList) (.ok none) [⟨some 3, none⟩], .other, .heading none]

theorem runPipeline_traced_sample :
    ∃ lines groups parts,
      groups.flatten = (titled byLaws).filter Emits ∧ groups.IsChain Parted ∧
      List.Forall₂ (Traced Char.isAlphanum lines) groups parts ∧
      buildChunksV2 .default Char.isAlphanum ((parseDocling byLaws).map Parsed.element) =
        reindex parts.flatten := by
  have hrun : runPipeline .default Char.isAlphanum (none : Option (Sink Unit)) () (.ok byLaws) =
      .ok (buildChunksV2 .default Char.isAlphanum ((parseDocling byLaws).map Parsed.element), 3) :=
    rfl
  obtain ⟨lines, groups, parts, _, hflat, hchunks, htraced, _, hparted, _⟩ :=
    runPipeline_traced hrun
  exact ⟨lines, groups, parts, hflat, hparted, htraced, hchunks⟩

end AgenticRag.Chunker
