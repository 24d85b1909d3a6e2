import Betsphere.Demo.Tidy
set_option autoImplicit false

namespace Betsphere

namespace Llm
open LastSplit Trimmed

/-- A word ends in front of position `n`, and a space follows it in the line. -/
def EndsWord (text : Text) (n : Nat) : Prop :=
  (∃ front c, text.take n = front ++ [c] ∧ c ≠ ' ') ∧ text[n]? = some ' '

/-- The head of an overlong text cut after the last word that is complete, or all of it when
it holds no space. -/
def WordCut (text cut : Text) : Prop :=
  (' ' ∉ text.take maxChars ∧ cut = text.take maxChars) ∨
    (' ' ∈ text.take maxChars ∧ ∃ n ≤ maxChars, cut = text.take n ∧ (n = 0 ∨ EndsWord text n) ∧
      ∀ k ≤ maxChars, EndsWord text k → k ≤ n)

/-- What is cleared from behind a cut: cut marks and white space, however they alternate. -/
def isLoose (c : Char) : Bool := isCutMark c || isWhitespace c

def cleared (cut : Text) : Text := (cut.rdropWhile isLoose).dropWhile isWhitespace

/-- The line is cut after the last word that fits, and no complete word that fits is lost but
for the marks and white space at its end. -/
def CutsAtWord (text : Text) : Prop :=
  (∀ cut, WordCut text cut → shorten text = cleared cut) ∧
    ∀ n ≤ maxChars, EndsWord text n → cleared (text.take n) <+: shorten text

/-- A mark stands before white space that nothing but marks follows. -/
def HidesMark (kept : Text) : Prop :=
  ∃ front mark blank marks, kept = front ++ mark :: (blank ++ marks) ∧ isCutMark mark = true ∧
    blank ≠ [] ∧ (∀ c ∈ blank, isWhitespace c = true) ∧ ∀ c ∈ marks, isCutMark c = true

/-- What stands before the last space of the head hides no mark at its end, and a complete word
behind that space is only marks and white space. -/
def SplitsAtWord (text : Text) : Prop :=
  (' ' ∉ text.take maxChars → ¬HidesMark (text.take maxChars)) ∧
    ∀ kept word, text.take maxChars = kept ++ ' ' :: word → ' ' ∉ word → ¬HidesMark kept ∧
      (word ≠ [] → text[maxChars]? = some ' ' → ∀ c ∈ word, isLoose c = true)

def isSpace (c : Char) : Bool := c = ' '

def wordCut (text : Text) : Text :=
  match rsplitOnce [' '] (text.take maxChars) with
  | none => text.take maxChars
  | some (kept, word) =>
    if word ≠ [] ∧ text[maxChars]? = some ' ' then text.take maxChars
    else kept.rdropWhile isSpace

section Words
variable {text kept word cut : Text} {n : Nat}

/-- A complete word that fits ends before the last space of the head, or with the head. -/
theorem EndsWord.bound (htake : text.take maxChars = kept ++ ' ' :: word) (hword : ' ' ∉ word)
    (hn : n ≤ maxChars) (h : EndsWord text n) :
    n ≤ (kept.rdropWhile isSpace).length ∨
      n = maxChars ∧ word ≠ [] ∧ text[maxChars]? = some ' ' := by
  obtain ⟨⟨front, c, hlast, hc⟩, hspace⟩ := h
  rcases Nat.lt_or_eq_of_le hn with hlt | rfl
  · left
    have hat : (kept ++ ' ' :: word)[n]? = some ' ' := by
      rw [← htake, List.getElem?_take_of_lt hlt, hspace]
    have hle : n ≤ kept.length := by
      by_contra hlong
      rw [List.getElem?_append_right (by omega), List.getElem?_cons,
        if_neg (by omega)] at hat
      exact hword (List.mem_of_getElem? hat)
    have hinitial : text.take n <+: kept := by
      have heq : text.take n = (kept ++ ' ' :: word).take n := by
        rw [← htake, List.take_take, Nat.min_eq_left hn]
      rw [heq, List.take_append_of_le_length hle]
      exact List.take_prefix n kept
    have hlen : (text.take n).length = n := by
      rw [List.length_take, Nat.min_eq_left]
      exact (List.getElem?_eq_some_iff.mp hspace).1.le
    rw [← hlen]
    refine (prefix_rdropWhile hinitial fun a ha => ?_).length_le
    rw [hlast, List.getLast?_concat] at ha
    cases ha
    exact decide_eq_false hc
  · refine .inr ⟨rfl, ?_, hspace⟩
    rintro rfl
    have hends := congrArg List.getLast? (htake.symm.trans hlast)
    rw [List.getLast?_concat, List.getLast?_concat] at hends
    exact hc (Option.some.inj hends).symm

theorem spaces_of_rdropWhile {spaces : Text} (h : kept = kept.rdropWhile isSpace ++ spaces) :
    ∀ c ∈ spaces, c = ' ' := by
  intro c hc
  have hback : spaces = kept.rtakeWhile isSpace :=
    List.append_cancel_left (h.symm.trans List.rdropWhile_append_rtakeWhile.symm)
  have hspace : isSpace c = true := by
    rw [hback] at hc
    exact List.mem_rtakeWhile_imp hc
  exact of_decide_eq_true hspace

theorem endsWord_kept (htake : text.take maxChars = kept ++ ' ' :: word)
    (hne : kept.rdropWhile isSpace ≠ []) :
    (kept.rdropWhile isSpace).length ≤ maxChars ∧
      text.take (kept.rdropWhile isSpace).length = kept.rdropWhile isSpace ∧
      EndsWord text (kept.rdropWhile isSpace).length := by
  obtain ⟨spaces, hspaces⟩ := List.rdropWhile_prefix isSpace kept
  have hall := spaces_of_rdropWhile hspaces.symm
  generalize hcore : kept.rdropWhile isSpace = core at hne hspaces
  have hhead : text.take maxChars = core ++ (spaces ++ ' ' :: word) := by
    rw [htake, ← hspaces, List.append_assoc]
  have hle : core.length ≤ maxChars := by
    have hlen := congrArg List.length hhead
    rw [List.length_take, List.length_append] at hlen
    omega
  have hcut : text.take core.length = core := by
    have heq : text.take core.length = (text.take maxChars).take core.length := by
      rw [List.take_take, Nat.min_eq_left hle]
    rw [heq, hhead, List.take_left']
    rfl
  refine ⟨hle, hcut, ⟨core.dropLast, core.getLast hne, ?_, ?_⟩, ?_⟩
  · rw [hcut, List.dropLast_append_getLast]
  · have hlast := getLast?_rdropWhile (p := isSpace) kept
    rw [hcore] at hlast
    exact of_decide_eq_false (hlast _ (List.getLast?_eq_some_getLast hne))
  · have hlt : core.length < maxChars := by
      have hlen := congrArg List.length hhead
      simp only [List.length_take, List.length_append, List.length_cons] at hlen
      omega
    have hat : (text.take maxChars)[core.length]? = some ' ' := by
      rw [hhead, List.getElem?_append_right (le_refl _), Nat.sub_self]
      cases spaces with
      | nil => rfl
      | cons c spaces =>
        rw [hall c List.mem_cons_self]
        rfl
    rwa [List.getElem?_take_of_lt hlt] at hat

theorem endsWord_head (htake : text.take maxChars = kept ++ ' ' :: word) (hword : ' ' ∉ word)
    (hne : word ≠ []) (hspace : text[maxChars]? = some ' ') : EndsWord text maxChars := by
  refine ⟨⟨kept ++ ' ' :: word.dropLast, word.getLast hne, ?_, ?_⟩, hspace⟩
  · rw [htake, List.append_assoc, List.cons_append, List.dropLast_append_getLast]
  · exact fun heq => hword (heq ▸ List.getLast_mem hne)

theorem wordCut_iff : WordCut text cut ↔ wordCut text = cut := by
  unfold WordCut wordCut
  cases hsplit : rsplitOnce [' '] (text.take maxChars) with
  | none =>
    have hspace : ' ' ∉ text.take maxChars := by
      rwa [rsplitOnce_eq_none, List.singleton_infix_iff] at hsplit
    constructor
    · rintro (⟨-, rfl⟩ | ⟨hmem, -⟩)
      · rfl
      · exact absurd hmem hspace
    · exact fun h => .inl ⟨hspace, h.symm⟩
  | some parts =>
    obtain ⟨kept, word⟩ := parts
    obtain ⟨htake, hword⟩ := rsplitOnce_singleton_iff.mp hsplit
    have hmem : ' ' ∈ text.take maxChars := by simp [htake]
    have hbound := fun k hk => EndsWord.bound (n := k) htake hword hk
    -- The last complete word is the one the computed cut ends with, so `n` is unique.
    have hlast : ∃ m ≤ maxChars, (if word ≠ [] ∧ text[maxChars]? = some ' ' then
        text.take maxChars else kept.rdropWhile isSpace) = text.take m ∧
        (m = 0 ∨ EndsWord text m) ∧ ∀ k ≤ maxChars, EndsWord text k → k ≤ m := by
      by_cases hends : word ≠ [] ∧ text[maxChars]? = some ' '
      · rw [if_pos hends]
        exact ⟨maxChars, le_refl _, rfl, .inr (endsWord_head htake hword hends.1 hends.2),
          fun k hk _ => hk⟩
      · rw [if_neg hends]
        have hle : ∀ k ≤ maxChars, EndsWord text k → k ≤ (kept.rdropWhile isSpace).length :=
          fun k hk hw => (hbound k hk hw).resolve_right fun h => hends h.2
        by_cases hne : kept.rdropWhile isSpace = []
        · rw [hne] at hle ⊢
          exact ⟨0, Nat.zero_le _, rfl, .inl rfl, hle⟩
        · obtain ⟨hfits, hcut, hw⟩ := endsWord_kept htake hne
          exact ⟨_, hfits, hcut.symm, .inr hw, hle⟩
    obtain ⟨m, hm, hcut, hwm, hmax⟩ := hlast
    dsimp only
    rw [hcut]
    constructor
    · rintro (⟨hno, -⟩ | ⟨-, n, hn, rfl, hwn, hmax'⟩)
      · exact absurd hmem hno
      · have hnm : n ≤ m := by
          rcases hwn with rfl | hw
          · exact Nat.zero_le _
          · exact hmax n hn hw
        have hmn : m ≤ n := by
          rcases hwm with rfl | hw
          · exact Nat.zero_le _
          · exact hmax' m hm hw
        rw [le_antisymm hnm hmn]
    · rintro rfl
      exact .inr ⟨hmem, m, hm, rfl, hwm, hmax⟩

end Words

section Marks
variable {text kept word cut : Text}

def unmarked (s : Text) : Text := (s.rdropWhile isCutMark).rdropWhile isWhitespace

theorem isLoose_false {c : Char} :
    isLoose c = false ↔ isCutMark c = false ∧ isWhitespace c = false :=
  Bool.or_eq_false_iff

/-- White space hides the marks before it from `shorten`. -/
theorem unmarked_hidden {front blank marks : Text} {mark : Char} (hmark : isCutMark mark = true)
    (hblank : blank ≠ []) (hblanks : ∀ c ∈ blank, isWhitespace c = true)
    (hmarks : ∀ c ∈ marks, isCutMark c = true) :
    unmarked (front ++ mark :: (blank ++ marks)) = front ++ [mark] := by
  have hlast : ∀ c ∈ (front ++ mark :: blank).getLast?, isCutMark c = false := by
    intro c hc
    rw [← List.singleton_append, ← List.append_assoc,
      List.getLast?_append_of_ne_nil _ hblank] at hc
    exact marks_apart _ (hblanks c (List.mem_of_getLast? hc))
  have hstays : isWhitespace mark = false := by
    by_contra hspace
    rw [marks_apart _ (Bool.eq_true_of_not_eq_false hspace)] at hmark
    cases hmark
  have hinner : (front ++ mark :: (blank ++ marks)).rdropWhile isCutMark =
      front ++ mark :: blank := by
    rw [← List.cons_append, ← List.append_assoc, rdropWhile_append_of_pos hmarks,
      rdropWhile_self.mpr hlast]
  rw [unmarked, hinner, ← List.singleton_append, ← List.append_assoc,
    rdropWhile_append_of_pos hblanks, List.rdropWhile_concat_neg _ _ _ (by simp [hstays])]

theorem unmarked_eq_iff (s : Text) : unmarked s = s.rdropWhile isLoose ↔ ¬HidesMark s := by
  constructor
  · rintro heq ⟨front, mark, blank, marks, rfl, hmark, hblank, hblanks, hmarks⟩
    rw [unmarked_hidden hmark hblank hblanks hmarks] at heq
    have hlast := getLast?_rdropWhile (p := isLoose) (front ++ mark :: (blank ++ marks)) mark
      (by rw [← heq, List.getLast?_concat]; rfl)
    rw [(isLoose_false.mp hlast).1] at hmark
    cases hmark
  · intro hno
    have houter : unmarked s ++ (s.rdropWhile isCutMark).rtakeWhile isWhitespace =
        s.rdropWhile isCutMark := List.rdropWhile_append_rtakeWhile
    have hinner : s.rdropWhile isCutMark ++ s.rtakeWhile isCutMark = s :=
      List.rdropWhile_append_rtakeWhile
    have hmarks : ∀ c ∈ s.rtakeWhile isCutMark, isCutMark c = true :=
      fun c hc => List.mem_rtakeWhile_imp hc
    have hblanks : ∀ c ∈ (s.rdropWhile isCutMark).rtakeWhile isWhitespace,
        isWhitespace c = true := fun c hc => List.mem_rtakeWhile_imp hc
    have hlast : ∀ c ∈ (unmarked s).getLast?, isLoose c = false := by
      intro c hc
      refine isLoose_false.mpr ⟨?_, getLast?_rdropWhile (s.rdropWhile isCutMark) c hc⟩
      by_contra hmark
      obtain ⟨front, hfront⟩ := List.getLast?_eq_some_iff.mp hc
      refine hno ⟨front, c, (s.rdropWhile isCutMark).rtakeWhile isWhitespace,
        s.rtakeWhile isCutMark, ?_, Bool.eq_true_of_not_eq_false hmark, fun hnil => ?_, hblanks,
        hmarks⟩
      · calc
          s = s.rdropWhile isCutMark ++ s.rtakeWhile isCutMark := hinner.symm
          _ = (front ++ [c]) ++ (s.rdropWhile isCutMark).rtakeWhile isWhitespace ++
              s.rtakeWhile isCutMark := by rw [← hfront, houter]
          _ = _ := by simp
      · rw [hnil, List.append_nil] at houter
        exact hmark (getLast?_rdropWhile (p := isCutMark) s c (houter ▸ hc))
    have hloose : ∀ c ∈ (s.rdropWhile isCutMark).rtakeWhile isWhitespace ++
        s.rtakeWhile isCutMark, isLoose c = true := by
      intro c hc
      unfold isLoose
      rcases List.mem_append.mp hc with hc | hc
      · rw [hblanks c hc, Bool.or_true]
      · rw [hmarks c hc, Bool.true_or]
    calc
      unmarked s = (unmarked s).rdropWhile isLoose := (rdropWhile_self.mpr hlast).symm
      _ = (unmarked s ++ ((s.rdropWhile isCutMark).rtakeWhile isWhitespace ++
          s.rtakeWhile isCutMark)).rdropWhile isLoose := (rdropWhile_append_of_pos hloose).symm
      _ = s.rdropWhile isLoose := by rw [← List.append_assoc, houter, hinner]

/-- Where the head ends with a complete word, the cut before it loses nothing just when the
word is loose. -/
theorem unmarked_word_iff : unmarked kept = (kept ++ ' ' :: word).rdropWhile isLoose ↔
    ¬HidesMark kept ∧ ∀ c ∈ word, isLoose c = true := by
  by_cases hloose : ∀ c ∈ word, isLoose c = true
  · have htail : ∀ c ∈ ' ' :: word, isLoose c = true := by
      intro c hc
      rcases List.mem_cons.mp hc with rfl | hc
      · decide
      · exact hloose c hc
    rw [rdropWhile_append_of_pos htail, unmarked_eq_iff]
    exact ⟨fun h => ⟨h, hloose⟩, And.left⟩
  · refine iff_of_false (fun heq => ?_) fun h => hloose h.2
    obtain ⟨c, hc, hword⟩ : ∃ c ∈ word, isLoose c = false := by
      push Not at hloose
      simpa using hloose
    have hlen := congrArg List.length heq
    rw [rdropWhile_append_of_neg ⟨c, List.mem_cons_of_mem _ hc, hword⟩,
      List.length_append] at hlen
    have hle := ((List.rdropWhile_prefix isWhitespace (kept.rdropWhile isCutMark)).trans
      (List.rdropWhile_prefix isCutMark kept)).length_le
    have hpos : 0 < ((' ' :: word).rdropWhile isLoose).length := by
      rw [← List.singleton_append, rdropWhile_append_of_neg ⟨c, hc, hword⟩]
      simp
    unfold unmarked at hlen
    omega

theorem loose_spaces (kept : Text) :
    (kept.rdropWhile isSpace).rdropWhile isLoose = kept.rdropWhile isLoose := by
  have hspaces : ∀ c ∈ kept.rtakeWhile isSpace, isLoose c = true := by
    intro c hc
    have hspace : isSpace c = true := List.mem_rtakeWhile_imp hc
    rw [of_decide_eq_true hspace]
    decide
  rw [← rdropWhile_append_of_pos hspaces, List.rdropWhile_append_rtakeWhile]

theorem cleared_eq_trim (cut : Text) : cleared cut = trim (cut.rdropWhile isLoose) := by
  have hlast : ∀ c ∈ (cut.rdropWhile isLoose).getLast?, isWhitespace c = false :=
    fun c hc => (isLoose_false.mp (getLast?_rdropWhile cut c hc)).2
  unfold trim
  rw [rdropWhile_dropWhile, rdropWhile_self.mpr hlast]
  rfl

theorem cleared_mono {s t : Text} (h : s <+: t) : cleared s <+: cleared t :=
  dropWhile_mono (rdropWhile_mono h)

end Marks

section Shorten
variable {text cut : Text}

theorem trim_eq_cleared_iff {s t : Text} (hs : s <+: text) (ht : t <+: text) :
    trim (s.rdropWhile isCutMark) = cleared t ↔ unmarked s = t.rdropWhile isLoose := by
  have hlast : ∀ c ∈ (t.rdropWhile isLoose).getLast?, isWhitespace c = false :=
    fun c hc => (isLoose_false.mp (getLast?_rdropWhile t c hc)).2
  have hiff := Trimmed.trim_eq_iff (p := isWhitespace)
    ((List.rdropWhile_prefix isCutMark s).trans hs) ((List.rdropWhile_prefix isLoose t).trans ht)
  rw [rdropWhile_self.mpr hlast] at hiff
  rw [cleared_eq_trim]
  exact hiff

theorem wordCut_within (text : Text) : wordCut text <+: text.take maxChars := by
  unfold wordCut
  split
  · exact List.prefix_refl _
  · rename_i kept word hsplit
    split
    · exact List.prefix_refl _
    · obtain ⟨htake, -⟩ := rsplitOnce_singleton_iff.mp hsplit
      exact (List.rdropWhile_prefix isSpace kept).trans ⟨' ' :: word, htake.symm⟩

theorem shorten_eq_iff (hlong : maxChars < text.length) :
    shorten text = cleared (wordCut text) ↔ SplitsAtWord text := by
  have hcut : wordCut text <+: text := (wordCut_within text).trans (List.take_prefix _ _)
  rw [shorten, if_neg (by omega), trim_eq_cleared_iff (beforeCut_initial text).1 hcut]
  unfold SplitsAtWord wordCut beforeCut
  cases hsplit : rsplitOnce [' '] (text.take maxChars) with
  | none =>
    have hspace : ' ' ∉ text.take maxChars := by
      rwa [rsplitOnce_eq_none, List.singleton_infix_iff] at hsplit
    dsimp only
    rw [unmarked_eq_iff]
    refine ⟨fun h => ⟨fun _ => h, fun kept word htake _ => ?_⟩, fun h => h.1 hspace⟩
    exact absurd (by simp [htake]) hspace
  | some parts =>
    obtain ⟨kept, word⟩ := parts
    obtain ⟨htake, hword⟩ := rsplitOnce_singleton_iff.mp hsplit
    have hmem : ' ' ∈ text.take maxChars := by simp [htake]
    have hunique : ∀ {P : Text → Text → Prop}, (∀ kept' word',
        text.take maxChars = kept' ++ ' ' :: word' → ' ' ∉ word' → P kept' word') ↔
          P kept word := by
      intro P
      refine ⟨fun h => h kept word htake hword, fun h kept' word' htake' hword' => ?_⟩
      cases hsplit.symm.trans (rsplitOnce_singleton_iff.mpr ⟨htake', hword'⟩)
      exact h
    rw [hunique]
    dsimp only
    split
    · rename_i hends
      rw [htake, unmarked_word_iff]
      exact ⟨fun h => ⟨fun hno => absurd (htake ▸ hmem) hno, h.1, fun _ _ => h.2⟩,
        fun h => ⟨h.2.1, h.2.2 hends.1 hends.2⟩⟩
    · rename_i hends
      rw [loose_spaces, unmarked_eq_iff]
      exact ⟨fun h => ⟨fun hno => absurd hmem hno, h, fun hne hnext => absurd ⟨hne, hnext⟩ hends⟩,
        fun h => h.2.1⟩

theorem word_within {n : Nat} (hn : n ≤ maxChars) (h : EndsWord text n) :
    cleared (text.take n) <+: cleared (wordCut text) := by
  refine cleared_mono ?_
  rcases wordCut_iff.mpr (Eq.refl (wordCut text)) with ⟨-, hcut⟩ | ⟨-, m, -, hcut, -, hmax⟩
  · rw [hcut]
    exact List.take_prefix_take_left hn
  · rw [hcut]
    exact List.take_prefix_take_left (hmax n hn h)

/-- What `shorten` returns of an overlong line is a beginning of it behind the leading white
space, of at most `maxChars` characters. It ends after the last word that fits exactly when
the last space of the head says where that is. -/
theorem shorten_cuts_iff (text : Text) (hlong : maxChars < text.length) :
    (shorten text <+: text.dropWhile isWhitespace ∧ (shorten text).length ≤ maxChars) ∧
      (CutsAtWord text ↔ SplitsAtWord text) := by
  have hbefore := beforeCut_initial text
  have hshorten : shorten text = trim ((beforeCut text).rdropWhile isCutMark) := by
    rw [shorten, if_neg (by omega)]
  refine ⟨⟨?_, ?_⟩, ?_⟩
  · rw [hshorten]
    exact (List.rdropWhile_prefix _ _).trans
      (dropWhile_mono ((List.rdropWhile_prefix _ _).trans hbefore.1))
  · rw [hshorten]
    exact ((trim_within _).length_le.trans (List.rdropWhile_prefix _ _).length_le).trans hbefore.2
  · rw [← shorten_eq_iff hlong]
    constructor
    · exact fun h => h.1 _ (wordCut_iff.mpr rfl)
    · intro heq
      refine ⟨fun cut hcut => ?_, fun n hn hword => ?_⟩
      · rw [heq, wordCut_iff.mp hcut]
      · rw [heq]
        exact word_within hn hword

end Shorten

theorem shorten_cuts_iff_letters : CutsAtWord (List.replicate 200 'a') ∧
    (shorten (List.replicate 200 'a')).length ≤ maxChars := by
  obtain ⟨⟨-, hlen⟩, hiff⟩ := shorten_cuts_iff (List.replicate 200 'a') (by decide +kernel)
  have hletter : ∀ c ∈ (List.replicate 200 'a').take maxChars, c = 'a' :=
    fun c hc => List.eq_of_mem_replicate (List.mem_of_mem_take hc)
  refine ⟨hiff.mpr ⟨?_, fun kept word htake _ => ?_⟩, hlen⟩
  · rintro - ⟨front, mark, blank, marks, heq, hmark, -⟩
    have ha := hletter mark (heq ▸ List.mem_append_right _ List.mem_cons_self)
    rw [ha] at hmark
    exact absurd hmark (by decide)
  · exact absurd (hletter ' ' (htake ▸ List.mem_append_right _ List.mem_cons_self)) (by decide)

namespace Sample

def fullHead : Text :=
  List.replicate 89 'a' ++ [' '] ++ List.replicate 90 'b' ++ [' ', 'c']

def commaDash : Text :=
  List.replicate 80 'a' ++ [',', ' ', '-', ' '] ++ List.replicate 120 'b'

end Sample

/-- The head ends with a complete word: it is lost. A space stands between two marks: the
comma in front of it stays. -/
theorem shorten_loses_word :
    shorten Sample.fullHead = List.replicate 89 'a' ∧ ¬CutsAtWord Sample.fullHead ∧
    shorten Sample.commaDash = List.replicate 80 'a' ++ [','] ∧
    ¬CutsAtWord Sample.commaDash :=
  ⟨by decide +kernel, fun h => absurd (h.1 _ (wordCut_iff.mpr rfl)) (by decide +kernel),
    by decide +kernel, fun h => absurd (h.1 _ (wordCut_iff.mpr rfl)) (by decide +kernel)⟩

end Llm

end Betsphere
