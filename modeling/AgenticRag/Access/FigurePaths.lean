import AgenticRag.Access.Reading
import AgenticRag.Client.Markdown
import AgenticRag.Ingestion.FigureSink

/-!
# The paths to the figures

The client takes a stored URI apart and builds the path of the gateway from it, and the
gateway builds the URI again.  How the framework reads a document id in a path is a
parameter.
-/

namespace AgenticRag.Figures

open AgenticRag.Access AgenticRag.ObjectStore
open AgenticRag.Client (Text isLineEnd)
open AgenticRag.Ingestion (ChunkType Document figureId)

/-! ## Client -/

/-- `/^s3:\/\/([^/]+)\/([^/]+)\/(.+)\.png$/`: the three groups. -/
def matchUri (uri : Text) : Option (Text × Text × Text) :=
  if "s3://".toList <+: uri then do
    let (bucket, behind) ← cutSegment (uri.drop 5)
    let (document, rest) ← cutSegment behind
    let name := rest.take (rest.length - 4)
    if ".png".toList <:+ rest ∧ name ≠ [] ∧ name.all (fun char => !isLineEnd char) then
      some (bucket, document, name)
    else none
  else none

/-- `figurePath` on the `image_uri` of a citation. -/
def figurePath (imageUri : Option Text) : Option Text :=
  match matchUri (imageUri.getD []) with
  | none => none
  | some (bucket, document, name) =>
      if bucket = "figures".toList then
        some ("/media/figures/".toList ++ (document ++ '/' :: name))
      else none

/-! ## Gateway -/

/-- The arguments a path hands to `figure_image`, if it is one of its paths. -/
def routeFigure (parse : String → Option Uuid) (path : Text) : Option (Uuid × String) :=
  if "/media/figures/".toList <+: path then do
    let (document, name) ← cutSegment (path.drop 15)
    let documentId ← parse (String.ofList document)
    if name = [] ∨ '/' ∈ name then none else some (documentId, String.ofList name)
  else none

/-- `figure_image` -/
def figureImage {Png : Type} (library : Library) (user : User) (objects : Objects Png)
    (documentId : Uuid) (figureId : String) : Except HttpError Png := do
  let _ ← library.authorizedDocument user documentId
  if isFigureId figureId then
    match get objects (toUri (bucketName .figures) (figureKey documentId figureId)) with
    | none => .error ⟨404, "Not found"⟩
    | some png => .ok png
  else .error ⟨404, "Not found"⟩

/-- On names of objects it is the `figure_image` of the read paths. -/
theorem figureImage_eq {Png : Type} (library : Library) (user : User) (objects : Objects Png)
    (documentId : Uuid) (figureId : String) :
    figureImage library user objects documentId figureId =
      library.figureImage user (holds objects) documentId figureId := by
  have hget := get_location objects ⟨.figures, documentId, figureId⟩
  rw [location] at hget
  cases hheld : holds objects ⟨.figures, documentId, figureId⟩ with
  | none => simp only [figureImage, Library.figureImage, pngResponse, hget, hheld]
  | some png => simp only [figureImage, Library.figureImage, pngResponse, hget, hheld]

/-- An authorized request for an object of the store is answered with it. -/
theorem figureImage_of_held {Png : Type} (library : Library) (user : User) {objects : Objects Png}
    {documentId : Uuid} {figureId : String} {document : Document} {png : Png}
    (hdocument : library.authorizedDocument user documentId = .ok document)
    (hid : isFigureId figureId = true)
    (hheld : get objects (toUri (bucketName .figures) (figureKey documentId figureId)) =
      some png) :
    figureImage library user objects documentId figureId = .ok png := by
  simp only [figureImage, hdocument, hid, hheld, if_true]
  rfl

/-! ## Names -/

theorem mem_figureId {page : Option ℕ} {count : ℕ} {char : Char}
    (hchar : char ∈ (figureId page count).toList) :
    char = 'p' ∨ char = '-' ∨ char.isDigit = true := by
  have hdigit : ∀ number, char ∈ Nat.toDigits 10 number → char.isDigit = true :=
    fun number hmem => Nat.isDigit_of_mem_toDigits (by decide) (by decide) hmem
  rw [toList_figureId, List.mem_cons, List.mem_append, List.mem_cons, List.leftpad,
    List.mem_append] at hchar
  rcases hchar with hletter | hpage | hhyphen | hzero | hcount
  · exact .inl hletter
  · exact .inr (.inr (hdigit _ hpage))
  · exact .inr (.inl hhyphen)
  · rw [(List.mem_replicate.mp hzero).2]
    exact .inr (.inr rfl)
  · exact .inr (.inr (hdigit _ hcount))

/-- The characters of a name pass the check of the gateway and do not end a segment or a
line. -/
theorem figureId_plain {page : Option ℕ} {count : ℕ} {char : Char}
    (hchar : char ∈ (figureId page count).toList) :
    (char.isAlphanum || char = '_' || char = '-') = true ∧ char ≠ '/' ∧
      isLineEnd char = false := by
  rcases mem_figureId hchar with rfl | rfl | hdigit
  · decide
  · decide
  · have hclass : char.isAlphanum = true := by
      rw [Char.isAlphanum, hdigit, Bool.or_true]
    have hslash : char ≠ '/' := by
      rintro rfl
      cases hdigit
    have hline : isLineEnd char = false := by
      by_contra hend
      simp only [isLineEnd, Bool.not_eq_false, Bool.or_eq_true, beq_iff_eq] at hend
      rcases hend with ((rfl | rfl) | rfl) | rfl <;> cases hdigit
    exact ⟨by rw [hclass]; rfl, hslash, hline⟩

theorem figureId_ne_empty (page : Option ℕ) (count : ℕ) : (figureId page count).toList ≠ [] := by
  rw [toList_figureId]
  exact List.cons_ne_nil _ _

theorem length_figureId (page : Option ℕ) (count : ℕ) :
    (figureId page count).toList.length = (Nat.toDigits 10 (page.getD 0)).length +
      max 3 (Nat.toDigits 10 count).length + 2 := by
  rw [toList_figureId, List.length_cons, List.length_append, List.length_cons,
    List.length_leftpad]
  omega

/-- The check of the gateway looks at the length only. -/
theorem isFigureId_figureId (page : Option ℕ) (count : ℕ) :
    isFigureId (figureId page count) = true ↔
      (Nat.toDigits 10 (page.getD 0)).length + max 3 (Nat.toDigits 10 count).length ≤ 126 := by
  have hlast : (figureId page count).toList.getLast? ≠ some '\n' := by
    intro hnewline
    have hplain := (figureId_plain (List.mem_of_getLast? hnewline)).1
    exact absurd hplain (by decide)
  have hall : ((figureId page count).toList.all
      fun char => char.isAlphanum || char = '_' || char = '-') = true :=
    List.all_eq_true.mpr fun char hchar => (figureId_plain hchar).1
  simp only [isFigureId, if_neg hlast, hall, Bool.and_true, Bool.and_eq_true, decide_eq_true_eq,
    figureId_ne_empty, ne_eq, not_false_eq_true, true_and, length_figureId]
  omega

/-! ## From the URI to the path and back -/

/-- The expression takes a URI apart at its slashes. -/
theorem matchUri_append {bucket document name : Text} (hbucket : bucket ≠ [] ∧ '/' ∉ bucket)
    (hdocument : document ≠ [] ∧ '/' ∉ document) (hne : name ≠ [])
    (hline : ∀ char ∈ name, isLineEnd char = false) :
    matchUri ("s3://".toList ++ (bucket ++ '/' :: (document ++ '/' :: (name ++ ".png".toList)))) =
      some (bucket, document, name) := by
  have hname : (name ++ ".png".toList).take ((name ++ ".png".toList).length - 4) = name := by
    rw [List.length_append]
    exact List.take_left
  have hbehind : ∀ rest : Text, ("s3://".toList ++ rest).drop 5 = rest := fun _ => rfl
  rw [matchUri, if_pos (List.prefix_append _ _), hbehind,
    cutSegment_append hbucket.1 hbucket.2]
  simp only [Option.bind_eq_bind, Option.bind_some,
    cutSegment_append hdocument.1 hdocument.2, hname]
  have hall : name.all (fun char => !isLineEnd char) = true :=
    List.all_eq_true.mpr fun char hchar => by rw [hline char hchar]; rfl
  exact if_pos ⟨List.suffix_append _ _, hne, hall⟩

/-- The gateway takes a path apart at its slashes. -/
theorem routeFigure_append {parse : String → Option Uuid} {documentId : Uuid} {name : Text}
    (hparse : parse documentId.str = some documentId) (hne : name ≠ []) (hfree : '/' ∉ name) :
    routeFigure parse ("/media/figures/".toList ++ (documentId.str.toList ++ '/' :: name)) =
      some (documentId, String.ofList name) := by
  have hbehind : ∀ rest : Text, ("/media/figures/".toList ++ rest).drop 15 = rest := fun _ => rfl
  rw [routeFigure, if_pos (List.prefix_append _ _), hbehind,
    cutSegment_append documentId.str_ne_empty (slash_notMem_str documentId)]
  simp only [Option.bind_eq_bind, Option.bind_some, String.ofList_toList, hparse]
  exact if_neg (not_or.mpr ⟨hne, hfree⟩)

section Figure

variable (documentId : Uuid) (figure : Figure)

theorem toList_uri : (figure.uri documentId).toList =
    "s3://".toList ++ ("figures".toList ++ '/' :: (documentId.str.toList ++ '/' ::
      ((figureId figure.page figure.count).toList ++ ".png".toList))) := by
  rw [Figure.uri, toList_toUri, location, toList_figureKey]
  simp only [Figure.object, bucketName]

/-- The client takes the document and the name out of the URI of a figure. -/
theorem figurePath_uri : figurePath (some (figure.uri documentId).toList) =
    some ("/media/figures/".toList ++ (documentId.str.toList ++ '/' ::
      (figureId figure.page figure.count).toList)) := by
  have hmatch := matchUri_append (bucketName_plain .figures)
    ⟨documentId.str_ne_empty, slash_notMem_str documentId⟩
    (figureId_ne_empty figure.page figure.count)
    fun char hchar => (figureId_plain hchar).2.2
  rw [figurePath, Option.getD_some, toList_uri]
  simp only [bucketName] at hmatch
  simp only [hmatch, if_true]

/-- The gateway reads the same document and name in the path. -/
theorem routeFigure_path {parse : String → Option Uuid}
    (hparse : parse documentId.str = some documentId) :
    routeFigure parse ("/media/figures/".toList ++ (documentId.str.toList ++ '/' ::
      (figureId figure.page figure.count).toList)) =
        some (documentId, figureId figure.page figure.count) := by
  rw [routeFigure_append hparse (figureId_ne_empty _ _)
    fun hslash => (figureId_plain hslash).2.1 rfl, String.ofList_toList]

theorem uri_injective {left right : Figure} (heq : left.uri documentId = right.uri documentId) :
    left.object documentId = right.object documentId := by
  apply location_injective
  have hparsed := parseUri_location (left.object documentId)
  rw [← Figure.uri, heq, Figure.uri, parseUri_location, Option.some.injEq] at hparsed
  exact hparsed.symm

theorem nodup_uris (count : ℕ) (elements : List Element) :
    ((figures count elements).map (Figure.uri documentId)).Nodup :=
  nodup_map_figures count elements fun _ _ heq => object_count (uri_injective documentId heq)

end Figure

/-- How a figure of a run is reached through the URI in the metadata of its element. -/
structure Reached (parse : String → Option Uuid) (documentId : Uuid)
    (objects : Objects (List UInt8)) (figure : Figure) (uri : String) : Prop where
  held : get objects uri = some figure.png
  routed : ∃ path, figurePath (some uri.toList) = some path ∧
    routeFigure parse path = some (documentId, figureId figure.page figure.count)
  names : toUri (bucketName .figures)
    (figureKey documentId (figureId figure.page figure.count)) = uri
  accepted : isFigureId (figureId figure.page figure.count) = true ↔
    (Nat.toDigits 10 (figure.page.getD 0)).length +
      max 3 (Nat.toDigits 10 figure.count).length ≤ 126
  served : ∀ (library : Library) (user : User) (document : Document),
    library.authorizedDocument user documentId = .ok document →
    isFigureId (figureId figure.page figure.count) = true →
    figureImage library user objects documentId (figureId figure.page figure.count) =
      .ok figure.png

/-- The path of the client reaches the URI of every figure of a run, and no two figures
share one.  The check of the gateway turns only very long numbers away. -/
theorem figurePath_reaches {parse : String → Option Uuid}
    (hparse : ∀ id : Uuid, parse id.str = some id)
    (caption : List UInt8 → ChunkType → Option ℕ → Option String → String) (documentId : Uuid)
    (objects : Objects (List UInt8)) (elements : List Element) :
    List.Forall₂
        (Reached parse documentId
          (resolveFigures caption documentId ⟨0, objects⟩ elements).1.objects)
        (figures 0 elements)
        (imageUris (resolveFigures caption documentId ⟨0, objects⟩ elements).2) ∧
      (imageUris (resolveFigures caption documentId ⟨0, objects⟩ elements).2).Nodup := by
  rw [imageUris_resolveFigures]
  refine ⟨?_, nodup_uris documentId 0 elements⟩
  rw [List.forall₂_map_right_iff, List.forall₂_same]
  intro figure hfigure
  have hheld := holds_figure caption documentId ⟨0, objects⟩ elements hfigure
  rw [← get_location] at hheld
  exact {
    held := hheld
    routed := ⟨_, figurePath_uri documentId figure, routeFigure_path documentId figure (hparse _)⟩
    names := rfl
    accepted := isFigureId_figureId figure.page figure.count
    served := fun library user document hdocument hid =>
      figureImage_of_held library user hdocument hid hheld }

/-- A document with two figures, one of them on no page. -/
theorem figurePath_reaches_two :
    List.Forall₂
        (Reached Uuid.parse 7
          (resolveFigures (fun _ _ _ _ => "A curve") 7 ⟨0, fun _ => none⟩
            [⟨.chart, "", some 3, some [137]⟩, ⟨.text, "Sales rose", some 3, none⟩,
              ⟨.diagram, "", none, some [80]⟩]).1.objects)
        [⟨1, some 3, [137]⟩, ⟨2, none, [80]⟩]
        (imageUris (resolveFigures (fun _ _ _ _ => "A curve") 7 ⟨0, fun _ => none⟩
            [⟨.chart, "", some 3, some [137]⟩, ⟨.text, "Sales rose", some 3, none⟩,
              ⟨.diagram, "", none, some [80]⟩]).2) ∧
      (imageUris (resolveFigures (fun _ _ _ _ => "A curve") 7 ⟨0, fun _ => none⟩
            [⟨.chart, "", some 3, some [137]⟩, ⟨.text, "Sales rose", some 3, none⟩,
              ⟨.diagram, "", none, some [80]⟩]).2).Nodup :=
  figurePath_reaches Uuid.parse_str (fun _ _ _ _ => "A curve") 7 (fun _ => none)
    [⟨.chart, "", some 3, some [137]⟩, ⟨.text, "Sales rose", some 3, none⟩,
      ⟨.diagram, "", none, some [80]⟩]

/-- A figure on a page with a number of 127 digits is not served under its own path. -/
theorem figurePath_turned_away :
    ∃ uri ∈ imageUris (resolveFigures (fun _ _ _ _ => "A curve") 7 ⟨0, fun _ => none⟩
        [⟨.chart, "", some (10 ^ 126), some [137]⟩]).2,
      ∃ path figureId, figurePath (some uri.toList) = some path ∧
        routeFigure Uuid.parse path = some (7, figureId) ∧ isFigureId figureId = false := by
  have hlong : ¬(Nat.toDigits 10 (10 ^ 126)).length ≤ 126 := by
    rw [Nat.length_toDigits_le_iff (by decide) (by decide)]
    exact Nat.lt_irrefl _
  rw [imageUris_resolveFigures]
  refine ⟨_, List.mem_map_of_mem List.mem_cons_self, _, _, figurePath_uri 7 _,
    routeFigure_path 7 _ (Uuid.parse_str 7), ?_⟩
  rw [← Bool.not_eq_true, isFigureId_figureId, Option.getD_some]
  omega

end AgenticRag.Figures
