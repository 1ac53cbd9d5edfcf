import HeapStore.Text.Blank
import HeapStore.Text.Split

/-!
# Words, trimmed texts and parts

What the functions that cut a text leave of it, each with its reverse:

- `Text.words text = words` exactly if the text is `Text.Spaced`: these words,
  with blanks around them and at least one between two (`Text.words_eq_iff`);
- `Text.trim` takes the blanks off the ends of a text and nothing else
  (`Text.trim_append`, `Text.exists_blanks`);
- `Text.splitAt` gives back the parts that were joined, as long as the separator
  stands in none of them (`Text.splitAt_intercalate`).
-/

namespace HeapStore

namespace Text

/-- There is nothing to be seen of the text. -/
def Blank (text : List Char) : Prop := ∀ c ∈ text, isBlank c = true

theorem blank_iff_all {text : List Char} : Blank text ↔ text.all isBlank = true :=
  List.all_eq_true.symm

instance : DecidablePred Blank := fun _ => decidable_of_iff' _ blank_iff_all

/-- Some characters, none of which is a blank. -/
structure IsWord (word : List Char) : Prop where
  ne_nil : word ≠ []
  solid : ∀ c ∈ word, isBlank c = false

/-- No blank stands at either end. -/
structure IsTrimmed (text : List Char) : Prop where
  head : ∀ c, text.head? = some c → isBlank c = false
  last : ∀ c, text.getLast? = some c → isBlank c = false

variable {text before after gap word rest : List Char} {c : Char}

theorem blank_nil : Blank [] := fun _ hc => absurd hc List.not_mem_nil

theorem Blank.append (hbefore : Blank before) (hafter : Blank after) : Blank (before ++ after) :=
  fun c hc => (List.mem_append.1 hc).elim (hbefore c) (hafter c)

theorem Blank.reverse (h : Blank text) : Blank text.reverse :=
  fun c hc => h c (List.mem_reverse.1 hc)

theorem Blank.not_mem (h : Blank text) (hc : isBlank c = false) : c ∉ text := fun hmem => by
  rw [h c hmem] at hc
  cases hc

/-! ## Words -/

/-- The text holds the words, in order, with blanks around each of them: a word
ends at a blank or at the end of the text. -/
inductive Spaced : List (List Char) → List Char → Prop where
  | blank {gap : List Char} (h : Blank gap) : Spaced [] gap
  | word {gap word rest : List Char} {words : List (List Char)} (hgap : Blank gap)
      (hword : IsWord word) (hrest : Spaced words rest)
      (hends : ∀ c, rest.head? = some c → isBlank c = true) :
      Spaced (word :: words) (gap ++ (word ++ rest))

theorem Spaced.gap_append {words : List (List Char)} (hgap : Blank gap)
    (h : Spaced words text) : Spaced words (gap ++ text) := by
  cases h with
  | blank hblank => exact .blank (hgap.append hblank)
  | word hblank hword hrest hends =>
      rw [← List.append_assoc]
      exact .word (hgap.append hblank) hword hrest hends

theorem Spaced.mem {words : List (List Char)} (h : Spaced words text) (hc : c ∈ text) :
    isBlank c = true ∨ ∃ word ∈ words, c ∈ word := by
  induction h with
  | blank hblank => exact .inl (hblank c hc)
  | @word gap first rest words hgap _ _ _ ih =>
      rw [List.mem_append, List.mem_append] at hc
      rcases hc with hc | hc | hc
      · exact .inl (hgap c hc)
      · exact .inr ⟨first, List.mem_cons_self, hc⟩
      · exact (ih hc).imp_right fun ⟨other, hother, hmem⟩ =>
          ⟨other, List.mem_cons_of_mem _ hother, hmem⟩

theorem Spaced.mem_of_mem_word {words : List (List Char)} (h : Spaced words text)
    (hword : word ∈ words) (hc : c ∈ word) : c ∈ text := by
  induction h with
  | blank => exact absurd hword List.not_mem_nil
  | word _ _ _ _ ih =>
      rw [List.mem_append, List.mem_append]
      rcases List.mem_cons.1 hword with rfl | hword
      · exact .inr (.inl hc)
      · exact .inr (.inr (ih hword))

theorem Spaced.isWord {words : List (List Char)} (h : Spaced words text) :
    ∀ word ∈ words, IsWord word := by
  induction h with
  | blank => exact fun _ hmem => absurd hmem List.not_mem_nil
  | word _ hword _ _ ih => exact List.forall_mem_cons.2 ⟨hword, ih⟩

theorem wordsFrom_nil_gap_append (hgap : Blank gap) :
    wordsFrom [] (gap ++ text) = wordsFrom [] text := by
  induction gap with
  | nil => rfl
  | cons c gap ih =>
      rw [List.cons_append, wordsFrom, if_pos (hgap c List.mem_cons_self)]
      exact ih fun d hd => hgap d (List.mem_cons_of_mem _ hd)

theorem wordsFrom_word_append (run : List Char) (hsolid : ∀ c ∈ word, isBlank c = false) :
    wordsFrom run (word ++ rest) = wordsFrom (word.reverse ++ run) rest := by
  induction word generalizing run with
  | nil => rfl
  | cons c word ih =>
      rw [List.forall_mem_cons] at hsolid
      rw [List.cons_append, wordsFrom, if_neg (by simp [hsolid.1]), ih _ hsolid.2,
        List.reverse_cons, List.append_assoc, List.singleton_append]

/-- A run that was read is a word once a blank or the end follows. -/
theorem wordsFrom_of_ends {run : List Char} (hrun : run ≠ [])
    (hends : ∀ c, rest.head? = some c → isBlank c = true) :
    wordsFrom run rest = run.reverse :: wordsFrom [] rest := by
  have hsome : ¬run.isEmpty = true := by simpa using hrun
  cases rest with
  | nil => simp only [wordsFrom, if_neg hsome, List.isEmpty_nil, if_true]
  | cons c rest =>
      have hc := hends c rfl
      simp only [wordsFrom, if_pos hc, if_neg hsome, List.isEmpty_nil, if_true]

theorem Spaced.words_eq {words : List (List Char)} (h : Spaced words text) :
    Text.words text = words := by
  induction h with
  | @blank gap hgap =>
      rw [Text.words, ← List.append_nil gap, wordsFrom_nil_gap_append hgap]
      rfl
  | @word gap word rest words hgap hword hrest hends ih =>
      rw [Text.words, wordsFrom_nil_gap_append hgap, wordsFrom_word_append [] hword.solid,
        List.append_nil, wordsFrom_of_ends (by simpa using hword.ne_nil) hends,
        List.reverse_reverse, ← Text.words, ih]

/-- What is read on from a run is the words of the run and the text behind it. -/
theorem spaced_wordsFrom {run : List Char} (hrun : ∀ c ∈ run, isBlank c = false) :
    Spaced (wordsFrom run text) (run.reverse ++ text) := by
  have hword : ∀ run : List Char, (∀ c ∈ run, isBlank c = false) → ¬run.isEmpty = true →
      IsWord run.reverse := fun run hrun hsome =>
    ⟨by simpa using hsome, fun c hc => hrun c (List.mem_reverse.1 hc)⟩
  induction text generalizing run with
  | nil =>
      rw [wordsFrom]
      split
      · rename_i hnone
        rw [List.isEmpty_iff.1 hnone]
        exact .blank blank_nil
      · rename_i hsome
        exact .word blank_nil (hword run hrun hsome) (.blank blank_nil) (by simp)
  | cons c text ih =>
      rw [wordsFrom]
      split
      · rename_i hblank
        have hrest : Spaced (wordsFrom [] text) ([c] ++ text) :=
          (@ih [] fun _ hc => absurd hc List.not_mem_nil).gap_append
            (List.forall_mem_singleton.2 hblank)
        split
        · rename_i hnone
          rw [List.isEmpty_iff.1 hnone]
          exact hrest
        · rename_i hsome
          refine .word blank_nil (hword run hrun hsome) hrest fun d hd => ?_
          cases hd
          exact hblank
      · rename_i hsolid
        have hmore := ih (List.forall_mem_cons.2 ⟨Bool.eq_false_iff.2 hsolid, hrun⟩)
        rwa [List.reverse_cons, List.append_assoc, List.singleton_append] at hmore

/-- The words of a text are the words that it holds. -/
theorem words_eq_iff {words : List (List Char)} : Text.words text = words ↔ Spaced words text :=
  ⟨fun h => h ▸ @spaced_wordsFrom text [] fun _ hc => absurd hc List.not_mem_nil,
    Spaced.words_eq⟩

/-! ## Trimmed texts -/

theorem trimStart_append (hbefore : Blank before) (htext : ∀ c, text.head? = some c →
    isBlank c = false) : trimStart (before ++ text) = text := by
  rw [trimStart, List.dropWhile_append_of_pos hbefore]
  cases text with
  | nil => rfl
  | cons c text => rw [List.dropWhile_cons, if_neg (by simp [htext c rfl])]

/-- The blanks at the ends are taken off, and nothing else. -/
theorem trim_append (hbefore : Blank before) (hafter : Blank after) (htext : IsTrimmed text) :
    trim (before ++ (text ++ after)) = text := by
  have hback : ∀ c, text.reverse.head? = some c → isBlank c = false := by
    intro c hc
    rw [List.head?_reverse] at hc
    exact htext.last c hc
  cases text with
  | nil =>
      have hnone : trimStart (before ++ after ++ []) = [] :=
        trimStart_append (hbefore.append hafter) (by simp)
      rw [List.append_nil] at hnone
      rw [List.nil_append, trim, hnone]
      rfl
  | cons c text =>
      have hfront : trimStart (before ++ (c :: text ++ after)) = c :: text ++ after :=
        trimStart_append hbefore fun d hd => htext.head d hd
      rw [trim, hfront, List.reverse_append, trimStart_append hafter.reverse hback,
        List.reverse_reverse]

theorem exists_blank_append_trimStart (text : List Char) :
    ∃ before, Blank before ∧ text = before ++ trimStart text ∧
      ∀ c, (trimStart text).head? = some c → isBlank c = false := by
  refine ⟨text.takeWhile isBlank, fun c hc => List.all_eq_true.1 List.all_takeWhile c hc,
    List.takeWhile_append_dropWhile.symm, fun c hc => ?_⟩
  have hhead := List.head?_dropWhile_not isBlank text
  rw [← trimStart, hc] at hhead
  exact hhead

theorem exists_blanks (text : List Char) :
    ∃ before after, Blank before ∧ Blank after ∧ text = before ++ (trim text ++ after) ∧
      IsTrimmed (trim text) := by
  obtain ⟨before, hbefore, htext, hhead⟩ := exists_blank_append_trimStart text
  obtain ⟨after, hafter, hback, hlast⟩ :=
    exists_blank_append_trimStart (trimStart text).reverse
  have hmiddle : trimStart text = trim text ++ after.reverse := by
    rw [trim, ← List.reverse_append, ← hback, List.reverse_reverse]
  refine ⟨before, after.reverse, hbefore, hafter.reverse, ?_, fun c hc => ?_, fun c hc => ?_⟩
  · rw [← hmiddle]
    exact htext
  · refine hhead c ?_
    rw [hmiddle, List.head?_append, hc, Option.some_or]
  · refine hlast c ?_
    rwa [trim, List.getLast?_reverse] at hc

/-! ## Parts -/

theorem splitAt_append_cons {separator : Char} {part : List Char} (h : separator ∉ part)
    (rest : List Char) :
    splitAt separator (part ++ separator :: rest) = part :: splitAt separator rest := by
  induction part with
  | nil => rw [List.nil_append, splitAt, if_pos rfl]
  | cons c part ih =>
      rw [List.mem_cons, not_or] at h
      rw [List.cons_append, splitAt, if_neg (Ne.symm h.1), ih h.2]

theorem splitAt_of_not_mem {separator : Char} {part : List Char} (h : separator ∉ part) :
    splitAt separator part = [part] := by
  induction part with
  | nil => rfl
  | cons c part ih =>
      rw [List.mem_cons, not_or] at h
      rw [splitAt, if_neg (Ne.symm h.1), ih h.2]

theorem splitAt_intercalate {separator : Char} {parts : List (List Char)} (hsome : parts ≠ [])
    (h : ∀ part ∈ parts, separator ∉ part) :
    splitAt separator ([separator].intercalate parts) = parts := by
  induction parts with
  | nil => exact absurd rfl hsome
  | cons part parts ih =>
      rw [List.forall_mem_cons] at h
      cases parts with
      | nil => rw [List.intercalate_singleton, splitAt_of_not_mem h.1]
      | cons next parts =>
          rw [List.intercalate_cons_cons, List.append_assoc, List.singleton_append,
            splitAt_append_cons h.1, ih (List.cons_ne_nil _ _) h.2]

theorem not_mem_of_mem_splitAt {separator : Char} :
    ∀ part ∈ splitAt separator text, separator ∉ part := by
  induction text with
  | nil => simp [splitAt]
  | cons c text ih =>
      rw [splitAt]
      split
      · exact List.forall_mem_cons.2 ⟨List.not_mem_nil, ih⟩
      · rename_i hc
        split
        · simpa using Ne.symm hc
        · rename_i part parts hparts
          rw [hparts, List.forall_mem_cons] at ih
          refine List.forall_mem_cons.2 ⟨?_, ih.2⟩
          rw [List.mem_cons, not_or]
          exact ⟨Ne.symm hc, ih.1⟩

end Text

end HeapStore
