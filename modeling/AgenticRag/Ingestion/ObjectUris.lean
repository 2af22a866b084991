import AgenticRag.Ingestion.Stores
import AgenticRag.Text.UuidText

/-!
# Names of stored objects

The keys and the internal URIs under which MinIO holds the figures and pages of a document,
with the default names of the two buckets, and the store as the gateway reads it.  A URI
names one object.
-/

namespace AgenticRag.ObjectStore

open AgenticRag.Ingestion (Bucket StoredObject)

/-! ## Segments -/

/-- The text up to the first slash and the text behind it; `none` without a slash, or with
nothing in front of it. -/
def cutSegment (text : List Char) : Option (List Char × List Char) :=
  match text.dropWhile (· ≠ '/') with
  | [] => none
  | _ :: rest =>
      let segment := text.takeWhile (· ≠ '/')
      if segment = [] then none else some (segment, rest)

theorem cutSegment_append {segment : List Char} (hne : segment ≠ []) (hfree : '/' ∉ segment)
    (rest : List Char) : cutSegment (segment ++ '/' :: rest) = some (segment, rest) := by
  have hkept : ∀ char ∈ segment, decide (char ≠ '/') = true :=
    fun char hchar => decide_eq_true fun heq => hfree (heq ▸ hchar)
  have hdrop : (segment ++ '/' :: rest).dropWhile (· ≠ '/') = '/' :: rest := by
    rw [List.dropWhile_append_of_pos hkept]
    rfl
  have htake : (segment ++ '/' :: rest).takeWhile (· ≠ '/') = segment := by
    rw [List.takeWhile_append_of_pos hkept]
    simp
  rw [cutSegment, hdrop]
  simp only [htake, if_neg hne]

/-! ## Keys and URIs -/

/-- `figure_key` -/
def figureKey (documentId : Uuid) (figureId : String) : String :=
  documentId.str ++ "/" ++ figureId ++ ".png"

/-- `page_key` -/
def pageKey (documentId : Uuid) (pageNo : ℤ) : String :=
  documentId.str ++ "/" ++ toString pageNo ++ ".png"

/-- `to_uri` -/
def toUri (bucket key : String) : String :=
  "s3://" ++ bucket ++ "/" ++ key

/-- `parse_uri`; `none` for a `ValueError`. -/
def parseUri (uri : String) : Option (String × String) :=
  if "s3://".toList <+: uri.toList then
    match cutSegment (uri.toList.drop 5) with
    | some (bucket, key) =>
        if key = [] then none else some (String.ofList bucket, String.ofList key)
    | none => none
  else none

/-- `minio_bucket_figures` and `minio_bucket_pages` -/
def bucketName : Bucket → String
  | .figures => "figures"
  | .pages => "pages"

/-- The location of an object; the key of a page is the one of a figure that is named by its
number. -/
def location (object : StoredObject) : String × String :=
  (bucketName object.bucket, figureKey object.documentId object.name)

theorem toList_figureKey (documentId : Uuid) (figureId : String) :
    (figureKey documentId figureId).toList =
      documentId.str.toList ++ '/' :: (figureId.toList ++ ".png".toList) := by
  simp [figureKey]

theorem toList_toUri (bucket key : String) :
    (toUri bucket key).toList = "s3://".toList ++ (bucket.toList ++ '/' :: key.toList) := by
  simp [toUri]

theorem slash_notMem_str (documentId : Uuid) : '/' ∉ documentId.str.toList := by
  intro hmem
  have hdigits : ∀ digit < 16, '/' ≠ Uuid.hexDigit digit := by decide
  cases Uuid.mem_str hmem with
  | inl hhyphen => exact absurd hhyphen (by decide)
  | inr hhex =>
    obtain ⟨digit, hdigit, heq⟩ := hhex
    exact hdigits digit hdigit heq

theorem cutSegment_figureKey (documentId : Uuid) (figureId : String) :
    cutSegment (figureKey documentId figureId).toList =
      some (documentId.str.toList, figureId.toList ++ ".png".toList) := by
  rw [toList_figureKey]
  exact cutSegment_append documentId.str_ne_empty (slash_notMem_str documentId) _

/-- A URI is taken apart as it was put together. -/
theorem parseUri_toUri {bucket key : String} (hbucket : bucket.toList ≠ [])
    (hfree : '/' ∉ bucket.toList) (hkey : key.toList ≠ []) :
    parseUri (toUri bucket key) = some (bucket, key) := by
  have hdrop : (toUri bucket key).toList.drop 5 = bucket.toList ++ '/' :: key.toList := by
    rw [toList_toUri]
    rfl
  rw [parseUri, if_pos (toList_toUri bucket key ▸ List.prefix_append _ _), hdrop,
    cutSegment_append hbucket hfree]
  simp only [if_neg hkey, String.ofList_toList]

theorem bucketName_plain (bucket : Bucket) :
    (bucketName bucket).toList ≠ [] ∧ '/' ∉ (bucketName bucket).toList := by
  cases bucket with
  | figures => decide
  | pages => decide

theorem parseUri_location (object : StoredObject) :
    parseUri (toUri (location object).1 (location object).2) = some (location object) := by
  obtain ⟨hne, hfree⟩ := bucketName_plain object.bucket
  apply parseUri_toUri hne hfree
  rw [location, toList_figureKey]
  simp

theorem figureKey_injective {left right : Uuid} {first second : String}
    (heq : figureKey left first = figureKey right second) : left = right ∧ first = second := by
  have hcut := cutSegment_figureKey left first
  rw [heq, cutSegment_figureKey, Option.some.injEq, Prod.mk.injEq] at hcut
  exact ⟨Uuid.str_injective (String.toList_inj.mp hcut.1.symm),
    String.toList_inj.mp (List.append_cancel_right hcut.2.symm)⟩

/-- Two objects have two locations. -/
theorem location_injective : Function.Injective location := by
  intro left right heq
  rw [location, location, Prod.mk.injEq] at heq
  obtain ⟨hdocument, hname⟩ := figureKey_injective heq.2
  have hbucket : left.bucket = right.bucket := by
    have hnames := heq.1
    cases hleft : left.bucket with
    | figures =>
      cases hright : right.bucket with
      | figures => rfl
      | pages => rw [hleft, hright] at hnames; exact absurd hnames (by decide)
    | pages =>
      cases hright : right.bucket with
      | pages => rfl
      | figures => rw [hleft, hright] at hnames; exact absurd hnames (by decide)
  cases left
  cases right
  rw [StoredObject.mk.injEq]
  exact ⟨hbucket, hdocument, hname⟩

/-! ## The store -/

/-- The objects of MinIO by bucket and key. -/
abbrev Objects (Png : Type) := String × String → Option Png

section Store

variable {Png : Type} (objects : Objects Png)

/-- `_put`: the store afterwards and the URI. -/
def put (bucket key : String) (png : Png) : Objects Png × String :=
  (Function.update objects (bucket, key) (some png), toUri bucket key)

/-- `put_figure` -/
def putFigure (documentId : Uuid) (figureId : String) (png : Png) : Objects Png × String :=
  put objects (bucketName .figures) (figureKey documentId figureId) png

/-- `get`; `none` for an exception. -/
def get (uri : String) : Option Png :=
  (parseUri uri).bind objects

/-- What the store holds of the objects of the pipeline. -/
def holds (object : StoredObject) : Option Png :=
  objects (location object)

/-- The URI of an object reads what the store holds of it. -/
theorem get_location (object : StoredObject) :
    get objects (toUri (location object).1 (location object).2) = holds objects object := by
  rw [get, parseUri_location]
  rfl

/-- A figure is written to its own object. -/
theorem holds_putFigure (documentId : Uuid) (figureId : String) (png : Png) :
    holds (putFigure objects documentId figureId png).1 =
      Function.update (holds objects) ⟨.figures, documentId, figureId⟩ (some png) := by
  have hput : (putFigure objects documentId figureId png).1 =
      Function.update objects (location ⟨.figures, documentId, figureId⟩) (some png) := rfl
  funext object
  rw [holds, hput]
  by_cases hsame : object = ⟨.figures, documentId, figureId⟩
  · rw [hsame, Function.update_self, Function.update_self]
  · have hother : location object ≠ location ⟨.figures, documentId, figureId⟩ :=
      fun heq => hsame (location_injective heq)
    rw [Function.update_of_ne hsame, Function.update_of_ne hother, holds]

end Store

end AgenticRag.ObjectStore
