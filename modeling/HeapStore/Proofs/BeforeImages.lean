import HeapStore.Proofs.SlotMap
import Mathlib.Data.List.DropRight

/-!
# The before-image of a page is its last clean state

A page is changed and marked in any order: a tuple may go in before the page
is marked, a page may be marked for one transaction after another, calls may be
refused. A page is clean when it is made and when it is marked clean; the last
such point of a sequence of steps is where its beginning `PageStep.upToClean`
ends. What a page reports as its before-image is the page of that point
(`before_image_is_last_clean`).

No other step touches the image (`Page.beforePage_after`): the first one that
captures bytes finds those of the clean page, and a later one finds the
captured ones.
-/

namespace HeapStore

/-- Something that is done to a page. -/
inductive PageStep where
  | edit (call : PageCall)
  /-- The page is marked as changed by a transaction, or as clean. -/
  | mark (dirtier : Option TxnId)

namespace PageStep

def after : PageStep → Page → Page
  | .edit call, page => (call.run page).2
  | .mark (some txn), page => page.markDirty txn
  | .mark none, page => page.markClean

/-- Whether the page is clean when the step is done, whatever it was. -/
def cleans : PageStep → Bool
  | .mark none => true
  | _ => false

def call? : PageStep → Option PageCall
  | .edit call => some call
  | .mark _ => none

/-- The page after all steps. -/
def afterAll (steps : List PageStep) (page : Page) : Page :=
  steps.foldl (fun page step => step.after page) page

/-- The steps up to the last one that marks the page clean, with it. There
are none if no step does, as the page was clean when it was made. -/
def upToClean (steps : List PageStep) : List PageStep :=
  steps.rdropWhile fun step => !step.cleans

@[simp] theorem afterAll_concat (steps : List PageStep) (step : PageStep) (page : Page) :
    afterAll (steps ++ [step]) page = step.after (afterAll steps page) := by
  simp [afterAll]

theorem upToClean_concat (steps : List PageStep) (step : PageStep) :
    upToClean (steps ++ [step]) = if step.cleans then steps ++ [step] else upToClean steps := by
  cases hcleans : step.cleans with
  | true => exact List.rdropWhile_concat_neg _ _ _ (by simp [hcleans])
  | false => exact List.rdropWhile_concat_pos _ _ _ (by simp [hcleans])

end PageStep

namespace Page

/-- A step that does not clean the page leaves the before-image as it is,
whether or not the page had captured it. -/
theorem beforePage_after {step : PageStep} (hcleans : step.cleans = false) (page : Page) :
    (step.after page).beforePage = page.beforePage := by
  match step, hcleans with
  | .edit call, _ =>
      rcases run_becomes call page with hsame | hchange
      · rw [PageStep.after, hsame]
      · obtain ⟨data, -, hchanged⟩ := hchange.capture_eq
        rw [PageStep.after, hchanged]
        rfl
  | .mark (some txn), _ => rw [PageStep.after, beforePage, beforeData_markDirty]; rfl

/-- A page that is marked clean is its own before-image. -/
theorem beforePage_after_of_cleans {step : PageStep} (hcleans : step.cleans = true)
    (page : Page) : (step.after page).beforePage = step.after page := by
  match step, hcleans with
  | .mark none, _ => rw [PageStep.after, beforePage, beforeData_markClean]; rfl

/-- Marks are not on the map that a page stands for. -/
theorem slotMap_after (step : PageStep) (page : Page) :
    (step.after page).slotMap = (PageCall.runAll step.call?.toList page.slotMap).2 := by
  match step with
  | .edit call => exact (congrArg Prod.snd (runAll_slotMap [call] page)).symm
  | .mark (some txn) => rfl
  | .mark none => rfl

end Page

theorem PageCall.snd_runAll_append {σ : Type} [Slotted σ] (first second : List PageCall)
    (page : σ) :
    (runAll (first ++ second) page).2 = (runAll second (runAll first page).2).2 := by
  induction first generalizing page with
  | nil => rfl
  | cons call calls ih => exact ih _

/-- The map that a page stands for is told by the calls alone. -/
theorem Page.slotMap_afterAll (steps : List PageStep) (page : Page) :
    (PageStep.afterAll steps page).slotMap
      = (PageCall.runAll (steps.filterMap PageStep.call?) page.slotMap).2 := by
  induction steps using List.reverseRecOn with
  | nil => rfl
  | append_singleton steps step ih =>
      rw [PageStep.afterAll_concat, slotMap_after, ih, ← PageCall.snd_runAll_append,
        List.filterMap_append]
      cases hcall : step.call? <;> simp [hcall]

/-- The before-image is the page as it was when it was last clean. -/
theorem Page.beforePage_afterAll {page : Page} (hclean : page.beforePage = page)
    (steps : List PageStep) :
    (PageStep.afterAll steps page).beforePage
      = PageStep.afterAll (PageStep.upToClean steps) page := by
  induction steps using List.reverseRecOn with
  | nil => exact hclean
  | append_singleton steps step ih =>
      rw [PageStep.afterAll_concat, PageStep.upToClean_concat]
      cases hcleans : step.cleans with
      | true =>
          rw [if_pos rfl, PageStep.afterAll_concat]
          exact beforePage_after_of_cleans hcleans _
      | false =>
          rw [if_neg Bool.false_ne_true]
          exact (beforePage_after hcleans _).trans ih

/-- However a page is changed and marked, its before-image holds the bytes and
the tuples of its last clean point and is itself a clean page. These are the
tuples that the calls up to that point have left on the map. -/
theorem before_image_is_last_clean (id : PageId) (schema : Schema) (data : Bytes)
    (steps : List PageStep) :
    let start := Page.ofBytes id schema data
    let page := PageStep.afterAll steps start
    let clean := PageStep.afterAll (PageStep.upToClean steps) start
    page.beforeData = clean.data ∧
      page.beforePage.data = clean.data ∧ page.beforePage.tuples = clean.tuples ∧
      (∀ slot, page.beforePage.tuple slot = clean.tuple slot) ∧
      page.beforePage.slotMap
        = (PageCall.runAll ((PageStep.upToClean steps).filterMap PageStep.call?) start.slotMap).2 ∧
      page.beforePage.dirtier = none ∧ page.beforePage.before = none := by
  intro start page clean
  have himage : page.beforePage = clean := Page.beforePage_afterAll rfl steps
  have hbytes : page.beforeData = clean.data := congrArg Page.data himage
  refine ⟨hbytes, hbytes, ?_, ?_, ?_, rfl, rfl⟩
  · rw [himage]
  · rw [himage]
    exact fun slot => rfl
  · rw [himage]
    exact Page.slotMap_afterAll _ _

/-- A tuple that went in before the page was marked is not in the image, nor
is one that followed a change of the mark. -/
example :
    let schema : Schema := ⟨[⟨.int, none⟩]⟩
    let insert (n : Int32) := PageStep.edit (.insert ⟨schema, [.int n], none, rfl⟩)
    let page := PageStep.afterAll
      [insert 1, .mark none, insert 2, .mark (some ⟨7⟩), .mark (some ⟨8⟩), insert 3]
      (.ofBytes ⟨⟨1⟩, 0⟩ schema (List.replicate 16 0))
    page.tuples.length = 3 ∧ page.beforePage.tuples.map (·.fields) = [[.int 1]] := by
  decide +kernel

end HeapStore
