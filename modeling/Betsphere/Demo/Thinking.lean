import Betsphere.Demo.Shorten
set_option autoImplicit false

namespace Betsphere

namespace Llm
open LastSplit Trimmed

def openMark : Text := "<think>".toList
def closeMark : Text := "</think>".toList

/-- Text whose thinking blocks are all opened and closed within it. -/
inductive Balanced : Text → Prop where
  | plain (s : Text) (hopen : ¬openMark <:+: s) (hclose : ¬closeMark <:+: s) : Balanced s
  | block (front inner rest : Text) (hfront : Balanced front) (hinner : Balanced inner)
      (hrest : Balanced rest) : Balanced (front ++ openMark ++ inner ++ closeMark ++ rest)

/-- The character at `k` stands behind an opening mark and before the closing mark that
matches it, or anywhere behind it when none does. -/
def Reasoning (raw : Text) (k : Nat) : Prop :=
  ∃ before after, raw = before ++ openMark ++ after ∧ (before ++ openMark).length ≤ k ∧
    ∀ inner rest, after = inner ++ closeMark ++ rest → Balanced inner →
      k < (before ++ openMark ++ inner).length

def Unclosed (s : Text) : Prop :=
  ∃ front inside, s = front ++ openMark ++ inside ∧
    ∀ inner rest, inside = inner ++ closeMark ++ rest → ¬Balanced inner

def leading (p : Char → Bool) (s : Text) : Nat := (s.takeWhile p).length

def speakerStart (line bot : Text) : Nat :=
  match splitOnce ':' line with
  | some (name, said) =>
    if eqIgnoreAsciiCase (trim name) bot then name.length + 1 + leading isWhitespace said else 0
  | none => 0

/-- How far into the answer the slice starts that `tidy` posts: each step starts its own slice
within the one before, the first line at the first character that is no white space. -/
def tidyStart (raw bot : Text) : Nat :=
  match answerLine raw with
  | none => raw.length
  | some first =>
    let unwrapped := trimMatches isWrapper first
    raw.length - (stripThinking raw).length + leading isWhitespace (stripThinking raw) +
      leading isWrapper first + leading isWhitespace unwrapped +
      speakerStart (trim unwrapped) bot

/-- No character of the model's reasoning is posted, and nothing is where no speech follows
the last mark. -/
def PostsSpeech (raw bot : Text) : Prop :=
  (∀ line, tidy raw bot = some line →
    ∀ i < line.length, ¬Reasoning raw (tidyStart raw bot + i)) ∧
  ∀ front mark rest, mark = openMark ∨ mark = closeMark → raw = front ++ mark ++ rest →
    (∀ c ∈ rest, isWhitespace c = true) → tidy raw bot = none

def Wordless (said : Text) : Prop :=
  said = [] ∨ maxChars < said.length ∧ ∀ kept, Cut said kept → ∀ c ∈ kept, isCutMark c = true

def LastClosed (raw before : Text) : Prop :=
  before ++ closeMark <+: raw ∧ ∀ front, front ++ closeMark <+: raw → front.length ≤ before.length

/-- The thinking before the last closing mark is closed, what is kept of the line has no
opening mark before its last character, and no opening mark ends the answer. -/
structure ThinkingOver (raw said : Text) : Prop where
  closed : ∀ before, LastClosed raw before → ¬Unclosed (before ++ closeMark)
  whole : said.length ≤ maxChars → ¬openMark <:+: said.dropLast
  cut : maxChars < said.length → ∀ kept, Cut said kept → ∀ front behind,
    kept = front ++ openMark ++ behind → ∃ blank marks, behind = blank ++ marks ∧
      (∀ c ∈ blank, isWhitespace c = true) ∧ ∀ c ∈ marks, isCutMark c = true
  goesOn : ∀ front rest, raw = front ++ openMark ++ rest → ∃ c ∈ rest, isWhitespace c = false

section Thinking
variable {raw front more rest : Text}

def thinking (raw : Text) : Text := raw.take (raw.length - (stripThinking raw).length)

theorem thinking_cases (raw : Text) : (thinking raw = [] ∧ stripThinking raw = raw ∧
      ¬closeMark <:+: raw) ∨
    ∃ before after, rsplitOnce closeMark raw = some (before, after) ∧
      thinking raw = before ++ closeMark ∧ stripThinking raw = after ∧
      raw = before ++ closeMark ++ after ∧ ¬closeMark <:+: after := by
  cases hsplit : rsplitOnce closeMark raw with
  | none =>
    have hsaid : stripThinking raw = raw := by
      unfold stripThinking
      split
      · rename_i before said hsome
        cases hsome.symm.trans hsplit
      · rfl
    refine .inl ⟨?_, hsaid, rsplitOnce_eq_none.mp hsplit⟩
    rw [thinking, hsaid, Nat.sub_self, List.take_zero]
  | some parts =>
    obtain ⟨before, after⟩ := parts
    obtain ⟨hraw, hlast⟩ := rsplitOnce_some (by decide) hsplit
    have hsaid : stripThinking raw = after := by
      unfold stripThinking
      split
      · rename_i before' said hsome
        cases hsome.symm.trans hsplit
        rfl
      · rename_i hnone
        cases hnone.symm.trans hsplit
    refine .inr ⟨before, after, rfl, ?_, hsaid, hraw, hlast⟩
    have hlen : raw.length - after.length = (before ++ closeMark).length := by
      rw [hraw, List.length_append, Nat.add_sub_cancel]
    rw [thinking, hsaid, hlen, hraw, List.take_left]

theorem thinking_append (raw : Text) : thinking raw ++ stripThinking raw = raw := by
  rcases thinking_cases raw with ⟨hnil, hsaid, -⟩ | ⟨before, after, -, hbefore, hsaid, hraw, -⟩
  · rw [hnil, hsaid, List.nil_append]
  · rw [hbefore, hsaid, ← hraw]

theorem closeMark_within (h : raw = front ++ closeMark ++ rest) :
    (front ++ closeMark).length ≤ (thinking raw).length := by
  rcases thinking_cases raw with ⟨-, -, hno⟩ | ⟨before, after, hsplit, hbefore, -, -, -⟩
  · exact absurd ⟨front, rest, h.symm⟩ hno
  · have hle := rsplitOnce_last hsplit h
    rw [hbefore, List.length_append, List.length_append]
    omega

theorem thinking_ends (h : thinking raw ≠ []) : (thinking raw).getLast? = some '>' := by
  rcases thinking_cases raw with ⟨hnil, -⟩ | ⟨before, after, -, hbefore, -⟩
  · exact absurd hnil h
  · rw [hbefore, List.getLast?_append_of_ne_nil _ (by decide)]
    rfl

theorem openMark_apart {before after : Text} (h : before ++ openMark ++ after = raw)
    (hlong : (thinking raw).length < (before ++ openMark).length) :
    (thinking raw).length ≤ before.length := by
  by_contra hshort
  have hin : thinking raw <+: before ++ openMark := by
    refine List.prefix_of_prefix_length_le ⟨stripThinking raw, thinking_append raw⟩
      ⟨after, h⟩ hlong.le
  have hbefore : before <+: thinking raw := by
    refine List.prefix_of_prefix_length_le (List.prefix_append before openMark) hin ?_
    omega
  obtain ⟨part, hpart⟩ := hbefore
  rw [← hpart, List.prefix_append_right_inj] at hin
  have hne : part ≠ [] := by
    rintro rfl
    rw [List.append_nil] at hpart
    rw [hpart] at hshort
    omega
  have hend : part.getLast? = some '>' := by
    rw [← List.getLast?_append_of_ne_nil before hne, hpart]
    refine thinking_ends ?_
    rw [← hpart]
    simp [hne]
  have hall : ∀ part ∈ openMark.inits, part.length < openMark.length →
      part.getLast? ≠ some '>' := by
    decide
  refine hall part ((List.mem_inits _ _).mpr hin) ?_ hend
  rw [← hpart, List.length_append, List.length_append] at hlong
  omega

/-- Behind what is dropped a character is in a thinking block if one was left open there, or
one opens before it. -/
theorem reasoning_iff (h : raw = thinking raw ++ more ++ rest) :
    Reasoning raw (thinking raw ++ more).length ↔
      Unclosed (thinking raw) ∨ openMark <:+: more := by
  constructor
  · rintro ⟨before, after, hraw, hle, hmatch⟩
    have hin : before ++ openMark <+: thinking raw ++ more :=
      List.prefix_of_prefix_length_le ⟨after, hraw.symm⟩ ⟨rest, h.symm⟩ hle
    by_cases hlong : (thinking raw).length < (before ++ openMark).length
    · right
      have hapart := openMark_apart hraw.symm hlong
      have hbefore : thinking raw <+: before :=
        List.prefix_of_prefix_length_le (List.prefix_append _ more)
          ((List.prefix_append before openMark).trans hin) hapart
      obtain ⟨part, hpart⟩ := hbefore
      obtain ⟨behind, hbehind⟩ := hin
      rw [← hpart, List.append_assoc, List.append_assoc, List.append_cancel_left_eq] at hbehind
      exact ⟨part, behind, by rw [← hbehind, List.append_assoc]⟩
    · left
      obtain ⟨inside, hinside⟩ := List.prefix_of_prefix_length_le hin
        (List.prefix_append (thinking raw) more) (by omega)
      refine ⟨before, inside, hinside.symm, fun inner tail htail hbalanced => ?_⟩
      have hafter : after = inner ++ closeMark ++ (tail ++ more ++ rest) := by
        have heq := hraw.symm.trans h
        rw [← hinside, htail] at heq
        simpa only [List.append_assoc, List.append_cancel_left_eq] using heq
      have hlt := hmatch inner _ hafter hbalanced
      have hlen := congrArg List.length hinside
      rw [htail] at hlen
      simp only [List.length_append] at hlt hlen
      omega
  · rintro (⟨before, inside, hthinking, hopen⟩ | ⟨before, behind, hmore⟩)
    · refine ⟨before, inside ++ more ++ rest, ?_, ?_, fun inner tail htail hbalanced => ?_⟩
      · conv_lhs => rw [h, hthinking]
        simp only [List.append_assoc]
      · rw [hthinking]
        simp only [List.length_append]
        omega
      · by_contra hlong
        have hclose : raw = before ++ openMark ++ inner ++ closeMark ++ tail := by
          conv_lhs => rw [h, hthinking]
          rw [List.append_assoc, List.append_assoc, ← List.append_assoc inside, htail]
          simp only [List.append_assoc]
        have hwithin := closeMark_within hclose
        have hin : before ++ openMark ++ inner ++ closeMark <+: thinking raw :=
          List.prefix_of_prefix_length_le ⟨tail, hclose.symm⟩
            ⟨stripThinking raw, thinking_append raw⟩ hwithin
        obtain ⟨tail', htail'⟩ := hin
        rw [hthinking] at htail'
        refine hopen inner tail' ?_ hbalanced
        simpa only [List.append_assoc, List.append_cancel_left_eq] using htail'.symm
    · refine ⟨thinking raw ++ before, behind ++ rest, ?_, ?_, fun inner tail htail _ => ?_⟩
      · conv_lhs => rw [h, ← hmore]
        simp only [List.append_assoc]
      · rw [← hmore]
        simp only [List.length_append]
        omega
      · have hclose : raw = thinking raw ++ before ++ openMark ++ inner ++ closeMark ++ tail := by
          conv_lhs => rw [h, ← hmore]
          rw [List.append_assoc, List.append_assoc, List.append_assoc, htail]
          simp only [List.append_assoc]
        have hwithin := closeMark_within hclose
        have hpos : 0 < openMark.length := by decide
        simp only [List.length_append] at hwithin
        omega

end Thinking

section Slices
variable {raw line said bot s first : Text}

theorem leading_append (p : Char → Bool) (s : Text) :
    ∃ front rest, s = front ++ trimMatches p s ++ rest ∧ front.length = leading p s ∧
      ∀ c ∈ front, p c = true := by
  refine ⟨s.takeWhile p, (s.dropWhile p).rtakeWhile p, ?_, rfl,
    fun c hc => List.mem_takeWhile_imp hc⟩
  rw [trimMatches, List.append_assoc, List.rdropWhile_append_rtakeWhile,
    List.takeWhile_append_dropWhile]

theorem speakerStart_append (line bot : Text) :
    ∃ front rest, line = front ++ stripSpeaker line bot ++ rest ∧
      front.length = speakerStart line bot ∧
      (front = [] ∨ ∃ name blank, front = name ++ ':' :: blank ∧
        eqIgnoreAsciiCase (trim name) bot = true ∧ ∀ c ∈ blank, isWhitespace c = true) := by
  unfold speakerStart stripSpeaker
  cases hsplit : splitOnce ':' line with
  | none => exact ⟨[], [], by simp, rfl, .inl rfl⟩
  | some parts =>
    obtain ⟨name, said⟩ := parts
    by_cases hname : eqIgnoreAsciiCase (trim name) bot = true
    · obtain ⟨blank, rest, hsaid, hlen, hblank⟩ := leading_append isWhitespace said
      refine ⟨name ++ ':' :: blank, rest, ?_, ?_, .inr ⟨name, blank, rfl, hname, hblank⟩⟩
      · simp only [hname, if_true]
        rw [(splitOnce_some hsplit).1]
        conv_lhs => rw [hsaid]
        simp [trimMatches, trim]
      · simp only [hname, if_true, List.length_append, List.length_cons, hlen]
        omega
    · exact ⟨[], [], by simp [hname], by simp [hname], .inl rfl⟩

theorem stripCr_cases (line : Text) : stripCr line = line ∨ line = stripCr line ++ ['\r'] := by
  unfold stripCr
  split
  · rename_i hcr
    obtain ⟨front, rfl⟩ := List.getLast?_eq_some_iff.mp hcr
    exact .inr (by simp)
  · exact .inl rfl

theorem trim_stripCr (line : Text) : trim (stripCr line) = trim line := by
  rcases stripCr_cases line with h | h
  · rw [h]
  · have hcr : ∀ c ∈ ['\r'], isWhitespace c = true := List.forall_mem_singleton.mpr (by decide)
    conv_rhs => rw [h]
    rw [trim, trim, rdropWhile_dropWhile, rdropWhile_dropWhile, rdropWhile_append_of_pos hcr]

theorem answerLine_eq (raw : Text) : answerLine raw =
    (((stripThinking raw).splitOn '\n').map trim).find? (· ≠ []) := by
  rw [answerLine, lines]
  generalize hparts : (stripThinking raw).splitOn '\n' = parts
  have hne : parts ≠ [] := hparts ▸ List.splitOn_ne_nil '\n' _
  have hback : parts = parts.dropLast ++ [parts.getLast hne] :=
    (List.dropLast_append_getLast hne).symm
  have hlast : parts.getLast? = some (parts.getLast hne) := List.getLast?_eq_some_getLast hne
  rw [hlast]
  conv_rhs => rw [hback]
  rw [List.map_append, List.map_append, List.find?_append, List.find?_append, List.map_map]
  have hcr : trim ∘ stripCr = trim := funext trim_stripCr
  rw [hcr]
  congr 1
  by_cases hnil : parts.getLast hne = []
  · rw [hnil]
    rfl
  · simp [Option.filter, hnil]

theorem find?_lines (s : Text)
    (h : ((s.splitOn '\n').map trim).find? (· ≠ []) = some first) :
    first <+: s.dropWhile isWhitespace := by
  induction s with
  | nil => simp [trim] at h
  | cons c s ih =>
    rw [List.splitOn_cons_eq_if_modifyHead] at h
    by_cases hfeed : c = '\n'
    · subst hfeed
      rw [if_pos (beq_self_eq_true _), List.map_cons, List.find?_cons_of_neg (by simp [trim])] at h
      rw [List.dropWhile_cons_of_pos (by decide)]
      exact ih h
    · rw [if_neg (by simpa using hfeed)] at h
      cases hparts : s.splitOn '\n' with
      | nil => exact absurd hparts (List.splitOn_ne_nil '\n' s)
      | cons part parts =>
        rw [hparts, List.modifyHead_cons, List.map_cons] at h
        by_cases hblank : isWhitespace c = true
        · have htrim : trim (c :: part) = trim part := by
            rw [trim, List.dropWhile_cons_of_pos hblank, trim]
          rw [htrim, ← List.map_cons, ← hparts] at h
          rw [List.dropWhile_cons_of_pos hblank]
          exact ih h
        · have hpart : c :: part <+: c :: s := by
            refine List.cons_prefix_cons.mpr ⟨rfl, ?_⟩
            exact (splitOn_spec '\n' s).2 part (by rw [hparts]; rfl)
          have htrim : trim (c :: part) = (c :: part).rdropWhile isWhitespace := by
            rw [trim, List.dropWhile_cons_of_neg hblank]
          have hne : trim (c :: part) ≠ [] := by
            rw [htrim, Ne, List.rdropWhile_eq_nil_iff]
            exact fun hall => hblank (hall c List.mem_cons_self)
          rw [List.find?_cons_of_pos (by simpa using hne)] at h
          rw [← Option.some.inj h, htrim, List.dropWhile_cons_of_neg hblank]
          exact (List.rdropWhile_prefix _ _).trans hpart

theorem answerLine_within (h : answerLine raw = some first) :
    ∃ front rest, stripThinking raw = front ++ first ++ rest ∧
      front.length = leading isWhitespace (stripThinking raw) ∧
      ∀ c ∈ front, isWhitespace c = true := by
  rw [answerLine_eq] at h
  obtain ⟨rest, hrest⟩ := find?_lines _ h
  refine ⟨(stripThinking raw).takeWhile isWhitespace, rest, ?_, rfl,
    fun c hc => List.mem_takeWhile_imp hc⟩
  rw [List.append_assoc, hrest, List.takeWhile_append_dropWhile]

theorem toLower_bracket {c : Char} (h : c.toLower = '<') : c = '<' := by
  unfold Char.toLower at h
  split at h
  · rename_i hupper
    have hval := congrArg (fun c => c.val.toNat) h
    simp only [UInt32.le_iff_toNat_le] at hupper
    simp at hval hupper
    omega
  · exact h

theorem bracket_not_mem (bot : Username) (h : eqIgnoreAsciiCase said bot.value = true) :
    '<' ∉ said := by
  intro hmem
  have hlower : '<'.toLower ∈ bot.value.map Char.toLower := by
    rw [← of_decide_eq_true h]
    exact List.mem_map_of_mem hmem
  obtain ⟨c, hc, hbracket⟩ := List.mem_map.mp hlower
  have hallowed := List.all_eq_true.mp bot.chars c hc
  rw [toLower_bracket hbracket] at hallowed
  exact absurd hallowed (by decide)

theorem spoken_at (h : answerLine raw = some first) (bot : Username) :
    ∃ gap rest, stripThinking raw = gap ++ spoken bot.value first ++ rest ∧
      tidyStart raw bot.value = (thinking raw ++ gap).length ∧ '<' ∉ gap := by
  obtain ⟨front₁, rest₁, hsaid, hlen₁, hblank₁⟩ := answerLine_within h
  obtain ⟨front₂, rest₂, hfirst, hlen₂, hwrap⟩ := leading_append isWrapper first
  obtain ⟨front₃, rest₃, hunwrapped, hlen₃, hblank₃⟩ :=
    leading_append isWhitespace (trimMatches isWrapper first)
  obtain ⟨front₄, rest₄, hcore, hlen₄, hname⟩ :=
    speakerStart_append (trim (trimMatches isWrapper first)) bot.value
  have htrim : trimMatches isWhitespace (trimMatches isWrapper first) =
      trim (trimMatches isWrapper first) := rfl
  refine ⟨front₁ ++ front₂ ++ front₃ ++ front₄, rest₄ ++ rest₃ ++ rest₂ ++ rest₁, ?_, ?_, ?_⟩
  · conv_lhs => rw [hsaid, hfirst, hunwrapped, htrim, hcore]
    simp only [spoken, List.append_assoc]
  · have hle : (stripThinking raw).length ≤ raw.length := by
      have hlen := congrArg List.length (thinking_append raw)
      rw [List.length_append] at hlen
      omega
    rw [tidyStart, h]
    simp only [thinking, List.length_append, List.length_take, hlen₁, hlen₂, hlen₃, hlen₄]
    omega
  · have hspace : isWhitespace '<' = false := by decide
    have hwrapper : isWrapper '<' = false := by decide
    simp only [List.mem_append, not_or]
    refine ⟨⟨⟨fun hmem => ?_, fun hmem => ?_⟩, fun hmem => ?_⟩, fun hmem => ?_⟩
    · exact absurd ((hblank₁ _ hmem).symm.trans hspace) (by decide)
    · exact absurd ((hwrap _ hmem).symm.trans hwrapper) (by decide)
    · exact absurd ((hblank₃ _ hmem).symm.trans hspace) (by decide)
    · rcases hname with rfl | ⟨name, blank, rfl, heq, hblank⟩
      · cases hmem
      · rcases List.mem_append.mp hmem with hmem | hmem
        · exact bracket_not_mem bot heq (mem_trim hmem hspace)
        · rcases List.mem_cons.mp hmem with hmem | hmem
          · cases hmem
          · exact absurd ((hblank _ hmem).symm.trans hspace) (by decide)

theorem tidy_at (bot : Username) (h : tidy raw bot.value = some line) :
    line <+: raw.drop (tidyStart raw bot.value) := by
  obtain ⟨first, hfirst, rfl, -⟩ := tidy_eq_some.mp h
  obtain ⟨gap, rest, hsaid, hstart, -⟩ := spoken_at hfirst bot
  have hraw : raw = thinking raw ++ gap ++ (spoken bot.value first ++ rest) := by
    conv_lhs => rw [← thinking_append raw, hsaid]
    simp only [List.append_assoc]
  have hdrop : raw.drop (thinking raw ++ gap).length = spoken bot.value first ++ rest := by
    generalize thinking raw ++ gap = front at hraw
    rw [hraw, List.drop_left]
  rw [hstart, hdrop]
  exact (shorten_spec (spoken_spec bot.value hfirst).1).1.trans (List.prefix_append _ _)

end Slices

section Speech
variable {raw said first line : Text} {bot : Username}

theorem infix_append_iff {gap t : Text} (hgap : '<' ∉ gap) :
    openMark <:+: gap ++ t ↔ openMark <:+: t := by
  constructor
  · rintro ⟨front, rest, heq⟩
    rw [List.append_assoc] at heq
    rcases List.append_eq_append_iff.mp heq with ⟨part, hpart, hrest⟩ | ⟨part, hpart, hrest⟩
    · cases part with
      | nil => exact ⟨[], rest, by simpa using hrest⟩
      | cons c part =>
        have hc : c = '<' := by
          have hhead : (openMark ++ rest).head? = some '<' := rfl
          rw [hrest, List.cons_append, List.head?_cons] at hhead
          exact Option.some.inj hhead
        exact absurd (by rw [hpart, hc]; simp) hgap
    · exact ⟨part, rest, by rw [hrest, List.append_assoc]⟩
  · exact fun h => h.trans (List.suffix_append gap t).isInfix

theorem reasoning_at (hfirst : answerLine raw = some first) {i : Nat}
    (hi : i ≤ (shorten (spoken bot.value first)).length) :
    Reasoning raw (tidyStart raw bot.value + i) ↔
      Unclosed (thinking raw) ∨ openMark <:+: (shorten (spoken bot.value first)).take i := by
  obtain ⟨gap, rest, hsaid, hstart, hgap⟩ := spoken_at hfirst bot
  obtain ⟨tail, htail⟩ := (shorten_spec (spoken_spec bot.value hfirst).1).1
  generalize shorten (spoken bot.value first) = line at hi htail
  have hraw : raw = thinking raw ++ (gap ++ line.take i) ++ (line.drop i ++ tail ++ rest) := by
    conv_lhs => rw [← thinking_append raw, hsaid, ← htail, ← List.take_append_drop i line]
    simp only [List.append_assoc]
  have hpos : tidyStart raw bot.value + i = (thinking raw ++ (gap ++ line.take i)).length := by
    have hlen : (line.take i).length = i := by rw [List.length_take, Nat.min_eq_left hi]
    rw [hstart]
    simp only [List.length_append, hlen]
    omega
  rw [hpos, reasoning_iff hraw, infix_append_iff hgap]

theorem silent_iff (hfirst : answerLine raw = some first) :
    (∀ i < (shorten (spoken bot.value first)).length,
      ¬Reasoning raw (tidyStart raw bot.value + i)) ↔
      shorten (spoken bot.value first) = [] ∨ ¬Unclosed (thinking raw) ∧
        ¬openMark <:+: (shorten (spoken bot.value first)).dropLast := by
  have hat : ∀ i < (shorten (spoken bot.value first)).length,
      (Reasoning raw (tidyStart raw bot.value + i) ↔
        Unclosed (thinking raw) ∨ openMark <:+: (shorten (spoken bot.value first)).take i) :=
    fun _ hi => reasoning_at hfirst hi.le
  generalize shorten (spoken bot.value first) = line at hat ⊢
  constructor
  · intro hall
    refine or_iff_not_imp_left.mpr fun hne => ?_
    have hpos := List.length_pos_iff.mpr hne
    have hlast := hall (line.length - 1) (by omega)
    rw [hat _ (by omega), not_or, ← List.dropLast_eq_take] at hlast
    exact hlast
  · rintro (rfl | ⟨hclosed, hopen⟩) i hi
    · simp at hi
    · rw [hat i hi, not_or]
      refine ⟨hclosed, fun hin => hopen (hin.trans ?_)⟩
      rw [List.dropLast_eq_take]
      exact (List.take_prefix_take_left (by omega)).isInfix

theorem lastClosed_iff {before : Text} :
    LastClosed raw before ↔ thinking raw = before ++ closeMark := by
  have hraw := thinking_append raw
  constructor
  · rintro ⟨⟨after, hafter⟩, hlast⟩
    rcases thinking_cases raw with ⟨-, -, hno⟩ | ⟨front, rest, -, hfront, -, hsplit, -⟩
    · exact absurd ⟨before, after, hafter⟩ hno
    · have hle := hlast front ⟨rest, hsplit.symm⟩
      have hge := closeMark_within hafter.symm
      rw [hfront, List.length_append, List.length_append] at hge
      rw [hfront]
      have heq : front ++ (closeMark ++ rest) = before ++ (closeMark ++ after) := by
        rw [← List.append_assoc, ← List.append_assoc, ← hsplit, hafter]
      rw [(List.append_inj heq (by omega)).1]
  · intro h
    rw [h] at hraw
    refine ⟨⟨_, hraw⟩, fun front hfront => ?_⟩
    obtain ⟨rest, hrest⟩ := hfront
    have hle := closeMark_within hrest.symm
    rw [h, List.length_append, List.length_append] at hle
    omega

theorem closed_iff :
    (∀ before, LastClosed raw before → ¬Unclosed (before ++ closeMark)) ↔
      ¬Unclosed (thinking raw) := by
  constructor
  · intro h
    rcases thinking_cases raw with ⟨hnil, -⟩ | ⟨before, after, -, hbefore, -⟩
    · rw [hnil]
      rintro ⟨front, inside, hempty, -⟩
      have hmark : openMark = [] := by
        rw [List.append_assoc, eq_comm, List.append_eq_nil_iff, List.append_eq_nil_iff] at hempty
        exact hempty.2.1
      cases hmark
    · rw [hbefore]
      exact h before (lastClosed_iff.mpr hbefore)
  · intro h before hbefore
    rwa [← lastClosed_iff.mp hbefore]

theorem unmarked_open (front behind : Text) :
    unmarked (front ++ openMark ++ behind) = front ++ openMark ++ unmarked behind := by
  have hlast : (front ++ openMark).getLast? = some '>' := by
    rw [List.getLast?_append_of_ne_nil _ (by decide)]
    rfl
  have hmark : ∀ c ∈ (front ++ openMark).getLast?, isCutMark c = false := by
    intro c hc
    obtain rfl := Option.some.inj (hlast.symm.trans hc)
    decide
  have hblank : ∀ c ∈ (front ++ openMark).getLast?, isWhitespace c = false := by
    intro c hc
    obtain rfl := Option.some.inj (hlast.symm.trans hc)
    decide
  rw [unmarked, rdropWhile_append hmark, rdropWhile_append hblank, unmarked]

theorem blank_marks_iff {word : Text} : (∃ blank marks, word = blank ++ marks ∧
    (∀ c ∈ blank, isWhitespace c = true) ∧ ∀ c ∈ marks, isCutMark c = true) ↔
      ∀ c ∈ word.rdropWhile isCutMark, isWhitespace c = true := by
  constructor
  · rintro ⟨blank, marks, rfl, hblank, hmarks⟩ c hc
    rw [rdropWhile_append_of_pos hmarks] at hc
    exact hblank c ((List.rdropWhile_prefix isCutMark blank).subset hc)
  · intro hblank
    exact ⟨_, _, List.rdropWhile_append_rtakeWhile.symm, hblank,
      fun c hc => List.mem_rtakeWhile_imp hc⟩

theorem unmarked_eq_nil {s : Text} : unmarked s = [] ↔ ∃ blank marks, s = blank ++ marks ∧
    (∀ c ∈ blank, isWhitespace c = true) ∧ ∀ c ∈ marks, isCutMark c = true := by
  rw [blank_marks_iff, unmarked, List.rdropWhile_eq_nil_iff]

/-- An opening mark stands in what is kept, before its last character, just where something is
kept behind it. -/
theorem open_unmarked_iff {kept : Text} : ¬openMark <:+: (unmarked kept).dropLast ↔
    ∀ front behind, kept = front ++ openMark ++ behind → unmarked behind = [] := by
  constructor
  · rintro hno front behind rfl
    by_contra hne
    refine hno ⟨front, (unmarked behind).dropLast, ?_⟩
    rw [unmarked_open, List.dropLast_append_of_ne_nil hne]
  · rintro h ⟨front, back, hback⟩
    have hwithin : unmarked kept <+: kept :=
      (List.rdropWhile_prefix _ _).trans (List.rdropWhile_prefix _ _)
    obtain ⟨tail, htail⟩ := hwithin
    have hne : unmarked kept ≠ [] := by
      intro hnil
      rw [hnil, List.dropLast_nil, List.append_assoc, List.append_eq_nil_iff,
        List.append_eq_nil_iff] at hback
      exact absurd hback.2.1 (by decide)
    obtain ⟨c, hsplit⟩ : ∃ c, unmarked kept = front ++ openMark ++ (back ++ [c]) :=
      ⟨(unmarked kept).getLast hne, by
        rw [← List.append_assoc, hback, List.dropLast_append_getLast]⟩
    have hwhole : kept = front ++ openMark ++ (back ++ [c] ++ tail) := by
      rw [← List.append_assoc, ← hsplit, htail]
    have hkept := unmarked_open front (back ++ [c] ++ tail)
    rw [h front _ hwhole, ← hwhole, hsplit, List.append_nil] at hkept
    have hlen := congrArg List.length hkept
    simp only [List.length_append, List.length_singleton] at hlen
    omega

theorem wordless_iff (htrim : trim said = said) : Wordless said ↔ shorten said = [] := by
  unfold Wordless
  by_cases hshort : said.length ≤ maxChars
  · rw [shorten, if_pos hshort]
    exact ⟨fun h => h.resolve_right fun hlong => by omega, .inl⟩
  · have hlong : maxChars < said.length := by omega
    have hmarks : shorten said = [] ↔ ∀ c ∈ beforeCut said, isCutMark c = true := by
      rw [shorten_cut htrim hlong, List.rdropWhile_eq_nil_iff]
      constructor
      · intro hblank
        rw [← List.rdropWhile_eq_nil_iff]
        obtain ⟨rest, hrest⟩ := (List.rdropWhile_prefix isCutMark (beforeCut said)).trans
          (beforeCut_initial said).1
        cases hkept : (beforeCut said).rdropWhile isCutMark with
        | nil => rfl
        | cons c kept =>
          rw [hkept] at hblank hrest
          have hspace := (Trimmed.trimmed_iff.mp htrim).1 c (by rw [← hrest]; rfl)
          rw [hblank c List.mem_cons_self] at hspace
          cases hspace
      · intro hall c hc
        rw [List.rdropWhile_eq_nil_iff.mpr hall] at hc
        cases hc
    rw [hmarks]
    constructor
    · rintro (rfl | ⟨-, hcut⟩)
      · simp at hlong
      · exact hcut _ (cut_iff.mpr rfl)
    · exact fun hall => .inr ⟨hlong, fun kept hkept => by rwa [← cut_iff.mp hkept]⟩

theorem thinkingOver_iff (htrim : trim said = said) : ThinkingOver raw said ↔
    (¬Unclosed (thinking raw) ∧ ¬openMark <:+: (shorten said).dropLast) ∧
      ∀ front rest, raw = front ++ openMark ++ rest → ∃ c ∈ rest, isWhitespace c = false := by
  have hkept : ¬openMark <:+: (shorten said).dropLast ↔
      (said.length ≤ maxChars → ¬openMark <:+: said.dropLast) ∧
      (maxChars < said.length → ∀ kept, Cut said kept → ∀ front behind,
        kept = front ++ openMark ++ behind → ∃ blank marks, behind = blank ++ marks ∧
          (∀ c ∈ blank, isWhitespace c = true) ∧ ∀ c ∈ marks, isCutMark c = true) := by
    by_cases hshort : said.length ≤ maxChars
    · rw [shorten, if_pos hshort]
      exact ⟨fun h => ⟨fun _ => h, fun hlong => by omega⟩, fun h => h.1 hshort⟩
    · have hlong : maxChars < said.length := by omega
      have hcut : shorten said = unmarked (beforeCut said) := shorten_cut htrim hlong
      rw [hcut, open_unmarked_iff]
      simp only [unmarked_eq_nil]
      constructor
      · refine fun h => ⟨fun hs => by omega, fun _ kept hkept => ?_⟩
        rw [← cut_iff.mp hkept]
        exact h
      · exact fun h => h.2 hlong _ (cut_iff.mpr rfl)
  rw [hkept, ← closed_iff]
  constructor
  · exact fun h => ⟨⟨h.closed, h.whole, h.cut⟩, h.goesOn⟩
  · exact fun h => ⟨h.1.1, h.1.2.1, h.1.2.2, h.2⟩

/-- With nothing but white space behind a closing mark nothing is posted. -/
theorem tidy_none_of_close {front rest bot : Text} (h : raw = front ++ closeMark ++ rest)
    (hblank : ∀ c ∈ rest, isWhitespace c = true) : tidy raw bot = none := by
  have hwithin : front ++ closeMark <+: thinking raw :=
    List.prefix_of_prefix_length_le ⟨rest, h.symm⟩
      ⟨stripThinking raw, thinking_append raw⟩ (closeMark_within h)
  obtain ⟨part, hpart⟩ := hwithin
  have hsaid : rest = part ++ stripThinking raw := by
    have heq := (thinking_append raw).trans h
    rw [← hpart, List.append_assoc, List.append_cancel_left_eq] at heq
    exact heq.symm
  cases hnone : tidy raw bot with
  | none => rfl
  | some line =>
    obtain ⟨first, hfirst, -, -⟩ := tidy_eq_some.mp hnone
    have hne : first ≠ [] := by simpa using List.find?_some hfirst
    have hinitial := find?_lines _ ((answerLine_eq raw).symm.trans hfirst)
    have hnil : (stripThinking raw).dropWhile isWhitespace = [] := by
      rw [List.dropWhile_eq_nil_iff]
      exact fun c hc => hblank c (hsaid ▸ List.mem_append_right _ hc)
    rw [hnil] at hinitial
    exact absurd (List.prefix_nil.mp hinitial) hne

/-- The posted line is the slice of the answer at `tidyStart`. It holds no reasoning for
exactly those answers whose first line is none: what is said before the last closing mark left
no block open, and none opens before the end of what is kept of the line. -/
theorem posts_speech_iff (raw : Text) (bot : Username) :
    (∀ line, tidy raw bot.value = some line → line <+: raw.drop (tidyStart raw bot.value)) ∧
    (PostsSpeech raw bot.value ↔
      ∀ first, answerLine raw = some first → ∀ said, Says bot.value first said →
        Wordless said ∨ ThinkingOver raw said) := by
  refine ⟨fun line => tidy_at bot, ?_⟩
  constructor
  · intro h first hfirst said hsaid
    obtain rfl := says_iff.mp hsaid
    have htrim := (spoken_spec bot.value hfirst).1
    rw [wordless_iff htrim, thinkingOver_iff htrim]
    refine or_iff_not_imp_left.mpr fun hne => ?_
    have hposted : tidy raw bot.value = some (shorten (spoken bot.value first)) :=
      tidy_eq_some.mpr ⟨first, hfirst, rfl, hne⟩
    refine ⟨((silent_iff hfirst).mp (h.1 _ hposted)).resolve_left hne, fun front rest hraw => ?_⟩
    by_contra hblank
    have hall : ∀ c ∈ rest, isWhitespace c = true := fun c hc =>
      Bool.eq_true_of_not_eq_false fun hno => hblank ⟨c, hc, hno⟩
    cases hposted.symm.trans (h.2 front openMark rest (.inl rfl) hraw hall)
  · intro h
    refine ⟨fun line hline => ?_, fun front mark rest hmark hraw hblank => ?_⟩
    · obtain ⟨first, hfirst, rfl, hne⟩ := tidy_eq_some.mp hline
      have htrim := (spoken_spec bot.value hfirst).1
      have hcases := h first hfirst _ (says_iff.mpr rfl)
      rw [wordless_iff htrim, thinkingOver_iff htrim] at hcases
      exact (silent_iff hfirst).mpr (.inr (hcases.resolve_left hne).1)
    · rcases hmark with rfl | rfl
      · cases htidy : tidy raw bot.value with
        | none => rfl
        | some line =>
          obtain ⟨first, hfirst, rfl, hne⟩ := tidy_eq_some.mp htidy
          have htrim := (spoken_spec bot.value hfirst).1
          have hcases := h first hfirst _ (says_iff.mpr rfl)
          rw [wordless_iff htrim, thinkingOver_iff htrim] at hcases
          obtain ⟨c, hc, hno⟩ := (hcases.resolve_left hne).2 front rest hraw
          rw [hblank c hc] at hno
          cases hno
      · exact tidy_none_of_close hraw hblank

end Speech

namespace Sample

def cutOff : Text := "<think>the user wants".toList

end Sample

/-- The block that is not closed is posted, from its opening mark on. -/
theorem thinking_cut_off :
    tidy Sample.cutOff "hana".toList = some Sample.cutOff ∧
    Reasoning Sample.cutOff (tidyStart Sample.cutOff "hana".toList + 7) ∧
    ¬PostsSpeech Sample.cutOff "hana".toList := by
  have htidy : tidy Sample.cutOff "hana".toList = some Sample.cutOff := by decide +kernel
  have hreasoning : Reasoning Sample.cutOff (tidyStart Sample.cutOff "hana".toList + 7) := by
    refine ⟨[], "the user wants".toList, by decide +kernel, by decide +kernel,
      fun inner rest hsplit _ => ?_⟩
    have hno : ¬closeMark <:+: "the user wants".toList := by decide +kernel
    exact absurd ⟨inner, rest, hsplit.symm⟩ hno
  exact ⟨htidy, hreasoning, fun h => h.1 _ htidy 7 (by decide +kernel) hreasoning⟩

end Llm

end Betsphere
