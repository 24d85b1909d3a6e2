import Betsphere.Domain.Chat
import Betsphere.Domain.Credentials
import Betsphere.Lib.LastSplit
import Betsphere.Lib.Trimmed
set_option autoImplicit false

namespace Betsphere

namespace Llm
open LastSplit

def maxChars : Nat := 180

def stripCr (line : Text) : Text := if line.getLast? = some '\r' then line.dropLast else line

/-- `str::lines`: a line feed ends a line, with a carriage return before it, and nothing
follows the last one. -/
def lines (s : Text) : List Text :=
  let parts := s.splitOn '\n'
  parts.dropLast.map stripCr ++ (parts.getLast?.filter (· ≠ [])).toList

def trimMatches (p : Char → Bool) (s : Text) : Text := (s.dropWhile p).rdropWhile p

def wrappers : List Char := "\"'`*_".toList

def isWrapper (c : Char) : Bool := c ∈ wrappers

def isCutMark (c : Char) : Bool := c ∈ [',', ';', '-', '(', '—']

def stripThinking (raw : Text) : Text :=
  match rsplitOnce "</think>".toList raw with
  | some (_, said) => said
  | none => raw

def eqIgnoreAsciiCase (a b : Text) : Bool := a.map Char.toLower = b.map Char.toLower

def stripSpeaker (line bot : Text) : Text :=
  match splitOnce ':' line with
  | some (name, said) => if eqIgnoreAsciiCase (trim name) bot then trim said else line
  | none => line

/-- The first `maxChars` characters of an overlong line, back to a space. -/
def beforeCut (line : Text) : Text :=
  match rsplitOnce [' '] (line.take maxChars) with
  | some (kept, _) => kept
  | none => line.take maxChars

def shorten (line : Text) : Text :=
  if line.length ≤ maxChars then line
  else trim ((beforeCut line).rdropWhile isCutMark)

def answerLine (raw : Text) : Option Text :=
  ((lines (stripThinking raw)).map trim).find? (· ≠ [])

def tidy (raw bot : Text) : Option Text :=
  match answerLine raw with
  | none => none
  | some line =>
    let line := trim (trimMatches isWrapper line)
    let line := stripSpeaker line bot
    match MessageBody.new (shorten line) with
    | .error _ => none
    | .ok body => some body.value

def Names (bot line said : Text) : Prop :=
  ∃ name, line = name ++ ':' :: said ∧ ':' ∉ name ∧ eqIgnoreAsciiCase (trim name) bot = true

def Speaks (bot line : Text) : Prop := ∃ said, Names bot line said

/-- No wrapper stands at either end, and the bot's name is not in front. -/
def Clean (bot line : Text) : Prop := Trimmed.Trim isWrapper line ∧ ¬Speaks bot line

structure Postable (line : Text) : Prop where
  oneLine : '\n' ∉ line
  short : line.length ≤ maxChars
  trimmed : trim line = line
  accepted : ∃ body, MessageBody.new line = .ok body ∧ body.value = line

/-- `said` stands in the line behind the wrappers at its ends, the white space within them and
the bot's name with the white space around what follows it, if it is there. -/
def Says (bot line said : Text) : Prop :=
  ∃ between core, Trimmed.Core isWrapper line between ∧ Trimmed.Core isWhitespace between core ∧
    (¬Speaks bot core ∧ said = core ∨
      ∃ behind, Names bot core behind ∧ Trimmed.Core isWhitespace behind said)

/-- An overlong line is cut behind `kept`, before the last space that its first `maxChars`
characters hold. -/
def Cut (line kept : Text) : Prop :=
  (∃ word, line.take maxChars = kept ++ ' ' :: word ∧ ' ' ∉ word) ∨
    (line.take maxChars = kept ∧ ' ' ∉ kept)

def EndsAtWrapper (kept : Text) : Prop :=
  ∃ front wrapper spaces marks, kept = front ++ wrapper :: (spaces ++ marks) ∧
    isWrapper wrapper = true ∧ (∀ c ∈ spaces, isWhitespace c = true) ∧
    ∀ c ∈ marks, isCutMark c = true

/-- The text does not begin with a wrapper, and what is kept of it neither ends at one nor
has the bot's name in front. -/
structure CutsClean (bot line : Text) : Prop where
  opens : ∀ c ∈ line.head?, isWrapper c = false
  whole : line.length ≤ maxChars → (∀ c ∈ line.getLast?, isWrapper c = false) ∧ ¬Speaks bot line
  cut : maxChars < line.length → ∀ kept, Cut line kept → ¬EndsAtWrapper kept ∧ ¬Speaks bot kept

/-- `tidy` as far as it takes pieces off both ends. -/
def spoken (bot line : Text) : Text := stripSpeaker (trim (trimMatches isWrapper line)) bot

section Lines
variable {s line name said bot : Text}

theorem stripCr_prefix (line : Text) : stripCr line <+: line := by
  unfold stripCr
  split
  · exact List.dropLast_prefix line
  · exact List.prefix_refl line

theorem mem_lines (h : line ∈ lines s) : line <:+: s ∧ '\n' ∉ line := by
  have hpart : ∃ part ∈ s.splitOn '\n', line <+: part := by
    rw [lines, List.mem_append, List.mem_map, Option.mem_toList] at h
    rcases h with ⟨part, hpart, rfl⟩ | h
    · exact ⟨part, List.mem_of_mem_dropLast hpart, stripCr_prefix part⟩
    · have hlast := (Option.filter_eq_some_iff.mp h).1
      exact ⟨line, List.mem_of_mem_getLast? hlast, List.prefix_refl line⟩
  obtain ⟨part, hmem, hinitial⟩ := hpart
  obtain ⟨hin, hsep⟩ := (splitOn_spec '\n' s).1 part hmem
  exact ⟨hinitial.isInfix.trans hin, fun hfeed => hsep (hinitial.subset hfeed)⟩

theorem trimMatches_within (p : Char → Bool) (s : Text) : trimMatches p s <:+: s :=
  (List.rdropWhile_prefix p (s.dropWhile p)).isInfix.trans (List.dropWhile_suffix p).isInfix

theorem trim_within (s : Text) : trim s <:+: s := trimMatches_within isWhitespace s

theorem splitOnce_some {sep : Char} (h : splitOnce sep s = some (name, said)) :
    s = name ++ sep :: said ∧ sep ∉ name := by
  unfold splitOnce at h
  split at h
  · cases h
  · rename_i c after hdrop
    cases h
    have hc : c = sep := by
      have hhead := List.head?_dropWhile_not (fun c => decide (c ≠ sep)) s
      rw [hdrop] at hhead
      simpa using hhead
    subst hc
    refine ⟨?_, fun hmem => ?_⟩
    · rw [← hdrop, List.takeWhile_append_dropWhile]
    · simpa using List.mem_takeWhile_imp hmem

theorem splitOnce_of_not_mem {sep : Char} (h : sep ∉ name) :
    splitOnce sep (name ++ sep :: said) = some (name, said) := by
  have hname : ∀ c ∈ name, decide (c ≠ sep) = true := fun c hc =>
    decide_eq_true fun heq => h (heq ▸ hc)
  unfold splitOnce
  rw [List.dropWhile_append_of_pos hname, List.takeWhile_append_of_pos hname]
  simp

theorem mem_trim {c : Char} (h : c ∈ s) (hc : isWhitespace c = false) : c ∈ trim s := by
  have hdrop : c ∈ s.dropWhile isWhitespace := by
    rw [← List.takeWhile_append_dropWhile (p := isWhitespace) (l := s), List.mem_append] at h
    rcases h with h | h
    · exact absurd (List.mem_takeWhile_imp h) (by simp [hc])
    · exact h
  rw [← List.rdropWhile_append_rtakeWhile (p := isWhitespace) (l := s.dropWhile isWhitespace),
    List.mem_append] at hdrop
  rcases hdrop with h | h
  · exact h
  · exact absurd (List.mem_rtakeWhile_imp h) (by simp [hc])

theorem toLower_colon {c : Char} (h : c.toLower = ':') : c = ':' := by
  unfold Char.toLower at h
  split at h
  · rename_i hupper
    have hval := congrArg (fun c => c.val.toNat) h
    simp only [UInt32.le_iff_toNat_le] at hupper
    simp at hval hupper
    omega
  · exact h

/-- No user name holds a colon, so the first one of the line is the one to look at. -/
theorem speaks_iff (bot : Username) (line : Text) : Speaks bot.value line ↔
    ∃ name said, line = name ++ ':' :: said ∧ eqIgnoreAsciiCase (trim name) bot.value := by
  constructor
  · rintro ⟨said, name, hline, -, hname⟩
    exact ⟨name, said, hline, hname⟩
  · rintro ⟨name, said, rfl, hname⟩
    refine ⟨said, name, rfl, fun hmem => ?_, hname⟩
    have hlower : ':'.toLower ∈ bot.value.map Char.toLower := by
      rw [← of_decide_eq_true hname]
      exact List.mem_map_of_mem (mem_trim hmem (by decide))
    obtain ⟨c, hc, hcolon⟩ := List.mem_map.mp hlower
    have hallowed := List.all_eq_true.mp bot.chars c hc
    rw [toLower_colon hcolon] at hallowed
    exact absurd hallowed (by decide)

theorem names_iff : Names bot line said ↔
    ∃ name, splitOnce ':' line = some (name, said) ∧ eqIgnoreAsciiCase (trim name) bot = true := by
  constructor
  · rintro ⟨name, rfl, hcolon, hname⟩
    exact ⟨name, splitOnce_of_not_mem hcolon, hname⟩
  · rintro ⟨name, hsplit, hname⟩
    obtain ⟨hline, hcolon⟩ := splitOnce_some hsplit
    exact ⟨name, hline, hcolon, hname⟩

theorem stripSpeaker_of_names (h : Names bot line said) : stripSpeaker line bot = trim said := by
  obtain ⟨name, hsplit, hname⟩ := names_iff.mp h
  rw [stripSpeaker, hsplit]
  simp only [hname, if_true]

theorem stripSpeaker_of_not_speaks (h : ¬Speaks bot line) : stripSpeaker line bot = line := by
  unfold stripSpeaker
  split
  · rename_i name said hsplit
    rw [if_neg fun hname => h ⟨said, names_iff.mpr ⟨name, hsplit, hname⟩⟩]
  · rfl

theorem names_suffix (h : Names bot line said) : ∃ name, name ++ ':' :: said = line := by
  obtain ⟨name, hline, -⟩ := h
  exact ⟨name, hline.symm⟩

theorem stripSpeaker_within (line bot : Text) : stripSpeaker line bot <:+: line := by
  by_cases h : Speaks bot line
  · obtain ⟨said, hnames⟩ := h
    obtain ⟨name, hline⟩ := names_suffix hnames
    rw [stripSpeaker_of_names hnames, ← hline]
    exact (trim_within said).trans ⟨name ++ [':'], [], by simp⟩
  · rw [stripSpeaker_of_not_speaks h]

theorem stripSpeaker_shorter (h : Speaks bot line) :
    (stripSpeaker line bot).length < line.length := by
  obtain ⟨said, hnames⟩ := h
  obtain ⟨name, hline⟩ := names_suffix hnames
  rw [stripSpeaker_of_names hnames, ← hline, List.length_append, List.length_cons]
  have := (trim_within said).length_le
  omega

theorem stripSpeaker_trimmed (h : trim line = line) :
    trim (stripSpeaker line bot) = stripSpeaker line bot := by
  by_cases hspeaks : Speaks bot line
  · obtain ⟨said, hnames⟩ := hspeaks
    rw [stripSpeaker_of_names hnames, trim_trim]
  · rw [stripSpeaker_of_not_speaks hspeaks, h]

theorem says_iff : Says bot line said ↔ spoken bot line = said := by
  unfold Says spoken
  simp only [Trimmed.core_iff, trimMatches]
  constructor
  · rintro ⟨between, core, rfl, rfl, ⟨hspeaks, rfl⟩ | ⟨behind, hnames, rfl⟩⟩
    · exact stripSpeaker_of_not_speaks hspeaks
    · exact stripSpeaker_of_names hnames
  · rintro rfl
    refine ⟨_, _, rfl, rfl, ?_⟩
    by_cases hspeaks : Speaks bot (trim (trimMatches isWrapper line))
    · obtain ⟨behind, hnames⟩ := hspeaks
      exact .inr ⟨behind, hnames, (stripSpeaker_of_names hnames).symm⟩
    · exact .inl ⟨hspeaks, stripSpeaker_of_not_speaks hspeaks⟩

theorem stripThinking_spec (raw : Text) : ¬"</think>".toList <:+: stripThinking raw := by
  unfold stripThinking
  split
  · rename_i before said hsplit
    exact (rsplitOnce_some (by decide) hsplit).2
  · rename_i hnone
    exact rsplitOnce_eq_none.mp hnone

theorem spoken_spec {raw : Text} (bot : Text) (h : answerLine raw = some line) :
    trim (spoken bot line) = spoken bot line ∧ '\n' ∉ spoken bot line ∧
      ¬"</think>".toList <:+: spoken bot line := by
  obtain ⟨whole, hwhole, rfl⟩ := List.mem_map.mp (List.mem_of_find?_eq_some h)
  obtain ⟨hin, hfeed⟩ := mem_lines hwhole
  have hspoken : spoken bot (trim whole) <:+: whole :=
    ((stripSpeaker_within _ bot).trans (trim_within _)).trans
      ((trimMatches_within isWrapper _).trans (trim_within whole))
  refine ⟨stripSpeaker_trimmed (trim_trim _), fun h => hfeed (hspoken.subset h), fun h => ?_⟩
  exact stripThinking_spec raw (h.trans (hspoken.trans hin))

end Lines

section Cut
variable {t r bot name said : Text}

theorem marks_apart (c : Char) (h : isWhitespace c = true) : isCutMark c = false := by
  by_contra hmark
  have hmem : c ∈ [',', ';', '-', '(', '—'] :=
    of_decide_eq_true (Bool.eq_true_of_not_eq_false hmark)
  have hall : ∀ c ∈ [',', ';', '-', '(', '—'], isWhitespace c = false :=
    List.forall_iff_forall_mem.mp (by decide)
  simp [hall c hmem] at h

theorem wrapper_apart (c : Char) (h : isWrapper c = true) :
    isCutMark c = false ∧ isWhitespace c = false ∧ c ≠ ':' := by
  have hall : ∀ c ∈ wrappers, isCutMark c = false ∧ isWhitespace c = false ∧ c ≠ ':' :=
    List.forall_iff_forall_mem.mp (by decide)
  exact hall c (by simpa [isWrapper] using h)

theorem cut_iff {kept : Text} : Cut t kept ↔ beforeCut t = kept := by
  unfold Cut beforeCut
  cases hsplit : rsplitOnce [' '] (t.take maxChars) with
  | some parts =>
    obtain ⟨front, word⟩ := parts
    obtain ⟨htake, hword⟩ := rsplitOnce_singleton_iff.mp hsplit
    constructor
    · rintro (⟨word', h⟩ | ⟨rfl, hspace⟩)
      · cases hsplit.symm.trans (rsplitOnce_singleton_iff.mpr h)
        rfl
      · exact absurd (htake ▸ by simp) hspace
    · rintro rfl
      exact .inl ⟨word, htake, hword⟩
  | none =>
    have hspace : ' ' ∉ t.take maxChars := by
      rw [rsplitOnce_eq_none, List.singleton_infix_iff] at hsplit
      exact hsplit
    constructor
    · rintro (⟨word, htake, -⟩ | ⟨rfl, -⟩)
      · exact absurd (htake ▸ by simp) hspace
      · rfl
    · rintro rfl
      exact .inr ⟨rfl, hspace⟩

theorem beforeCut_initial (t : Text) : beforeCut t <+: t ∧ (beforeCut t).length ≤ maxChars := by
  have htake : t.take maxChars <+: t := List.take_prefix maxChars t
  have hlen : (t.take maxChars).length ≤ maxChars := List.length_take_le maxChars t
  unfold beforeCut
  split
  · rename_i kept after hsplit
    obtain ⟨hhead, -⟩ := rsplitOnce_some (by decide) hsplit
    have hkept : kept <+: t.take maxChars := ⟨[' '] ++ after, by rw [hhead, List.append_assoc]⟩
    exact ⟨hkept.trans htake, hkept.length_le.trans hlen⟩
  · exact ⟨htake, hlen⟩

theorem shorten_cut (ht : trim t = t) (hlong : maxChars < t.length) :
    shorten t = ((beforeCut t).rdropWhile isCutMark).rdropWhile isWhitespace := by
  have hinitial : (beforeCut t).rdropWhile isCutMark <+: t :=
    (List.rdropWhile_prefix _ _).trans (beforeCut_initial t).1
  have hstart : t.dropWhile isWhitespace = t := by
    cases t with
    | nil => rfl
    | cons c t => simpa using (Trimmed.trimmed_iff.mp ht).1
  rw [shorten, if_neg (by omega), trim, dropWhile_initial hinitial hstart]

theorem beforeCut_eq (ht : trim t = t) (hlong : maxChars < t.length) :
    ∃ tail, beforeCut t = shorten t ++ tail ∧
      ∀ c ∈ tail, isWhitespace c = true ∨ isCutMark c = true := by
  let kept := (beforeCut t).rdropWhile isCutMark
  refine ⟨kept.rtakeWhile isWhitespace ++ (beforeCut t).rtakeWhile isCutMark, ?_, ?_⟩
  · have houter : kept ++ (beforeCut t).rtakeWhile isCutMark = beforeCut t :=
      List.rdropWhile_append_rtakeWhile
    have hinner : kept.rdropWhile isWhitespace ++ kept.rtakeWhile isWhitespace = kept :=
      List.rdropWhile_append_rtakeWhile
    rw [shorten_cut ht hlong, ← List.append_assoc, hinner, houter]
  · intro c hc
    rcases List.mem_append.mp hc with hc | hc
    · exact .inl (List.mem_rtakeWhile_imp hc)
    · exact .inr (List.mem_rtakeWhile_imp hc)

theorem shorten_spec (ht : trim t = t) :
    shorten t <+: t ∧ (shorten t).length ≤ maxChars ∧ trim (shorten t) = shorten t := by
  by_cases hshort : t.length ≤ maxChars
  · rw [shorten, if_pos hshort]
    exact ⟨List.prefix_refl t, hshort, ht⟩
  · obtain ⟨tail, htail, -⟩ := beforeCut_eq ht (by omega)
    obtain ⟨hinitial, hlen⟩ := beforeCut_initial t
    have hkept : shorten t <+: beforeCut t := ⟨tail, htail.symm⟩
    refine ⟨hkept.trans hinitial, hkept.length_le.trans hlen, ?_⟩
    rw [shorten, if_neg hshort, trim_trim]

theorem endsAtWrapper_iff (ht : trim t = t) (hlong : maxChars < t.length) :
    EndsAtWrapper (beforeCut t) ↔ ∃ c ∈ (shorten t).getLast?, isWrapper c = true := by
  rw [shorten_cut ht hlong]
  exact (Trimmed.ends_in_iff marks_apart (fun c h => (wrapper_apart c h).1)
    fun c h => (wrapper_apart c h).2.1).symm

theorem speaks_append {tail : Text} (htail : ':' ∉ tail) :
    Speaks bot (r ++ tail) ↔ Speaks bot r := by
  constructor
  · rintro ⟨said, name, hline, hcolon, hname⟩
    rcases List.append_eq_append_iff.mp hline with ⟨more, rfl, hmore⟩ | ⟨more, rfl, hmore⟩
    · exact absurd (hmore ▸ by simp) htail
    · cases more with
      | nil =>
        rw [List.nil_append] at hmore
        exact absurd (hmore ▸ List.mem_cons_self) htail
      | cons c more =>
        cases hmore
        exact ⟨more, name, rfl, hcolon, hname⟩
  · rintro ⟨said, name, rfl, hcolon, hname⟩
    exact ⟨said ++ tail, name, by simp, hcolon, hname⟩

theorem speaks_cut (ht : trim t = t) (hlong : maxChars < t.length) :
    Speaks bot (beforeCut t) ↔ Speaks bot (shorten t) := by
  obtain ⟨tail, htail, hends⟩ := beforeCut_eq ht hlong
  have hcolon : ':' ∉ tail := by
    intro hmem
    rcases hends ':' hmem with h | h
    · exact absurd h (by decide)
    · exact absurd h (by decide)
  rw [htail, speaks_append hcolon]

end Cut

section Answers
variable {raw bot t line : Text}

theorem message_new (htrim : trim line = line) (hshort : line.length ≤ maxChars)
    (hne : line ≠ []) : ∃ body, MessageBody.new line = .ok body ∧ body.value = line := by
  have hlen : (trim line).length ≤ 2000 := by
    rw [htrim]
    exact hshort.trans (by decide)
  have hne' : ¬trim line = [] := by rwa [htrim]
  refine ⟨⟨trim line, hne', hlen, trim_trim line⟩, ?_, htrim⟩
  simp only [MessageBody.new, BoundedText.new, dif_neg hne', dif_pos hlen]

theorem tidy_eq_some : tidy raw bot = some line ↔
    ∃ first, answerLine raw = some first ∧ shorten (spoken bot first) = line ∧ line ≠ [] := by
  unfold tidy
  change (match answerLine raw with | none => _ | some first => _) = _ ↔ _
  cases hfirst : answerLine raw with
  | none => simp
  | some first =>
    obtain ⟨htrim, -⟩ := spoken_spec bot hfirst
    obtain ⟨-, hshort, htrimmed⟩ := shorten_spec htrim
    simp only [Option.some.injEq, exists_eq_left']
    by_cases hne : shorten (spoken bot first) = []
    · have herror : MessageBody.new (shorten (spoken bot first)) =
          .error (.validation "message must not be empty") := by
        rw [hne]
        rfl
      unfold spoken at herror
      rw [herror]
      exact iff_of_false (by simp) fun h => h.2 (h.1.symm.trans hne)
    · obtain ⟨body, hbody, hvalue⟩ := message_new htrimmed hshort hne
      unfold spoken at hbody
      rw [hbody]
      simp only [hvalue, Option.some.injEq]
      exact ⟨fun h => ⟨h, h ▸ hne⟩, And.left⟩

theorem tidy_postable (h : tidy raw bot = some line) : Postable line := by
  obtain ⟨first, hfirst, rfl, hne⟩ := tidy_eq_some.mp h
  obtain ⟨htrim, hfeed, -⟩ := spoken_spec bot hfirst
  obtain ⟨hinitial, hshort, htrimmed⟩ := shorten_spec htrim
  exact ⟨fun hmem => hfeed (hinitial.subset hmem), hshort, htrimmed,
    message_new htrimmed hshort hne⟩

theorem answerLine_of_line (htrim : trim line = line) (hne : line ≠ [])
    (hfeed : '\n' ∉ line) (hthink : ¬"</think>".toList <:+: line) :
    answerLine line = some line := by
  have hraw : stripThinking line = line := by
    rw [stripThinking, rsplitOnce_eq_none.mpr hthink]
  have hlines : lines line = [line] := by
    rw [lines, List.splitOn_eq_singleton hfeed]
    simp [hne]
  rw [answerLine, hraw, hlines]
  simp [htrim, hne]

/-- No step makes the line longer, so one that comes back was left as it is by each of them. -/
theorem clean_iff_shorten (htrim : trim line = line) (hshort : line.length ≤ maxChars) :
    Clean bot line ↔ shorten (spoken bot line) = line := by
  constructor
  · rintro ⟨hwrap, hname⟩
    have hkeeps : trimMatches isWrapper line = line := Trimmed.trimmed_iff.mpr hwrap
    rw [spoken, hkeeps, htrim, stripSpeaker_of_not_speaks hname, shorten, if_pos hshort]
  · intro hfixed
    have hlen := congrArg List.length hfixed
    have hmatches : trimMatches isWrapper line <:+: line := trimMatches_within _ _
    have htrims := trim_within (trimMatches isWrapper line)
    have hstrips := stripSpeaker_within (trim (trimMatches isWrapper line)) bot
    have hshortens : shorten (spoken bot line) <+: spoken bot line :=
      (shorten_spec (stripSpeaker_trimmed (trim_trim _))).1
    have hwrap : trimMatches isWrapper line = line := by
      refine hmatches.eq_of_length (le_antisymm hmatches.length_le ?_)
      rw [← hlen]
      exact hshortens.length_le.trans (hstrips.length_le.trans htrims.length_le)
    have hspoken : spoken bot line = stripSpeaker line bot := by rw [spoken, hwrap, htrim]
    refine ⟨Trimmed.trimmed_iff.mp hwrap, fun hname => ?_⟩
    have hless := stripSpeaker_shorter hname
    have hle := hshortens.length_le
    rw [hspoken] at hle hlen
    omega

/-- A posted line is clean just when `tidy` has nothing more to do on it. -/
theorem clean_iff_fixed (h : tidy raw bot = some line) :
    Clean bot line ↔ tidy line bot = some line := by
  obtain ⟨first, hfirst, hline, hne⟩ := tidy_eq_some.mp h
  obtain ⟨htrim, hfeed, hthink⟩ := spoken_spec bot hfirst
  obtain ⟨hinitial, hshort, htrimmed⟩ := shorten_spec htrim
  rw [hline] at hinitial hshort htrimmed
  have hagain : answerLine line = some line :=
    answerLine_of_line htrimmed hne (fun h => hfeed (hinitial.subset h))
      fun h => hthink (h.trans hinitial.isInfix)
  rw [clean_iff_shorten htrimmed hshort, tidy_eq_some]
  constructor
  · exact fun hfixed => ⟨line, hagain, hfixed, hne⟩
  · rintro ⟨again, hfirst', hfixed, -⟩
    cases hagain.symm.trans hfirst'
    exact hfixed

theorem not_speaks_nil (bot : Text) : ¬Speaks bot [] := by
  rintro ⟨said, name, hline, -⟩
  simp at hline

theorem beforeCut_ne_nil (htrim : trim t = t) (hlong : maxChars < t.length) :
    beforeCut t ≠ [] := by
  have hhead : t.take maxChars ≠ [] := by
    intro h
    rw [List.take_eq_nil_iff] at h
    rcases h with h | rfl
    · cases h
    · simp at hlong
  unfold beforeCut
  split
  · rename_i kept after hsplit
    rintro rfl
    obtain ⟨htake, -⟩ := rsplitOnce_some (by decide) hsplit
    have hspace : ' ' ∈ t.head? := by
      have hfirst : (t.take maxChars).head? = some ' ' := by rw [htake]; rfl
      rwa [List.head?_take, if_neg (by decide)] at hfirst
    have := (Trimmed.trimmed_iff.mp htrim).1 ' ' hspace
    revert this
    decide
  · exact hhead

theorem opens_of_shorten_nil (htrim : trim t = t) (hnil : shorten t = []) :
    ∀ c ∈ t.head?, isWrapper c = false := by
  intro c hc
  by_cases hshort : t.length ≤ maxChars
  · rw [shorten, if_pos hshort] at hnil
    rw [hnil] at hc
    cases hc
  · obtain ⟨tail, htail, hends⟩ := beforeCut_eq htrim (by omega)
    have hmem : c ∈ beforeCut t := by
      obtain ⟨rest, hrest⟩ := (beforeCut_initial t).1
      cases hbefore : beforeCut t with
      | nil => exact absurd hbefore (beforeCut_ne_nil htrim (by omega))
      | cons d kept =>
        rw [← hrest, hbefore] at hc
        cases hc
        exact List.mem_cons_self
    rw [htail, hnil, List.nil_append] at hmem
    by_contra hwrap
    obtain ⟨hmark, hspace, -⟩ := wrapper_apart c (Bool.eq_true_of_not_eq_false hwrap)
    rcases hends c hmem with h | h
    · exact absurd (h.symm.trans hspace) (by decide)
    · exact absurd (h.symm.trans hmark) (by decide)

theorem cutsClean_iff (htrim : trim t = t) :
    CutsClean bot t ↔ (shorten t ≠ [] → Clean bot (shorten t)) := by
  have hopens (hne : shorten t ≠ []) : t.head? = (shorten t).head? := by
    obtain ⟨rest, hrest⟩ := (shorten_spec htrim).1
    conv_lhs => rw [← hrest]
    exact List.head?_append_of_ne_nil _ hne
  by_cases hshort : t.length ≤ maxChars
  · have hkept : shorten t = t := by rw [shorten, if_pos hshort]
    constructor
    · intro h hne
      rw [hkept]
      exact ⟨⟨h.opens, (h.whole hshort).1⟩, (h.whole hshort).2⟩
    · intro h
      by_cases hnil : t = []
      · subst hnil
        exact ⟨by simp, fun _ => ⟨by simp, not_speaks_nil bot⟩, fun h => absurd hshort (by omega)⟩
      · obtain ⟨⟨hfront, hback⟩, hname⟩ := h (by rwa [hkept])
        rw [hkept] at hfront hback hname
        exact ⟨hfront, fun _ => ⟨hback, hname⟩, fun h => absurd hshort (by omega)⟩
  · have hlong : maxChars < t.length := by omega
    have hkept : Cut t (beforeCut t) := cut_iff.mpr rfl
    have hcut := endsAtWrapper_iff htrim hlong
    have hspeaks : Speaks bot (beforeCut t) ↔ Speaks bot (shorten t) := speaks_cut htrim hlong
    constructor
    · intro h hne
      refine ⟨⟨fun c hc => h.opens c (by rwa [hopens hne]), fun c hc => ?_⟩, ?_⟩
      · by_contra hwrap
        exact (h.cut hlong _ hkept).1 (hcut.mpr ⟨c, hc, Bool.eq_true_of_not_eq_false hwrap⟩)
      · exact fun hname => (h.cut hlong _ hkept).2 (hspeaks.mpr hname)
    · intro h
      by_cases hnil : shorten t = []
      · refine ⟨opens_of_shorten_nil htrim hnil, fun hs => absurd hs hshort, fun _ kept hk => ?_⟩
        obtain rfl := cut_iff.mp hk
        constructor
        · rw [hcut, hnil]
          rintro ⟨c, hc, -⟩
          cases hc
        · rw [hspeaks, hnil]
          exact not_speaks_nil bot
      · obtain ⟨⟨hfront, hback⟩, hname⟩ := h hnil
        refine ⟨by rwa [hopens hnil], fun hs => absurd hs hshort, fun _ kept hk => ?_⟩
        obtain rfl := cut_iff.mp hk
        constructor
        · rw [hcut]
          rintro ⟨c, hc, hwrap⟩
          rw [hback c hc] at hwrap
          cases hwrap
        · rwa [hspeaks]

/-- Everything `tidy` posts can be posted as it is. It is clean, and then stays as it is under
`tidy`, for exactly those answers in which the last steps bring out nothing that an earlier
one takes away. -/
theorem tidy_clean_iff (raw bot : Text) :
    (∀ line, tidy raw bot = some line →
      Postable line ∧ (Clean bot line ↔ tidy line bot = some line)) ∧
    ((∀ line, tidy raw bot = some line → Clean bot line) ↔
      ∀ first, answerLine raw = some first → ∀ said, Says bot first said → CutsClean bot said) := by
  refine ⟨fun line h => ⟨tidy_postable h, clean_iff_fixed h⟩, fun h first hfirst said hsaid => ?_,
    ?_⟩
  · obtain rfl := says_iff.mp hsaid
    rw [cutsClean_iff (spoken_spec bot hfirst).1]
    exact fun hne => h _ (tidy_eq_some.mpr ⟨first, hfirst, rfl, hne⟩)
  · intro h line hline
    obtain ⟨first, hfirst, rfl, hne⟩ := tidy_eq_some.mp hline
    exact (cutsClean_iff (spoken_spec bot hfirst).1).mp (h first hfirst _ (says_iff.mpr rfl)) hne

end Answers

/-- The wrappers are looked for before the bot's name is taken off, so the quotation behind
the name keeps the one in front. -/
theorem quotation_behind_name :
    tidy "hana: \"free money\"".toList "hana".toList = some "\"free money".toList ∧
    ¬Clean "hana".toList "\"free money".toList ∧
    tidy "\"free money".toList "hana".toList = some "free money".toList := by
  refine ⟨by decide +kernel, fun h => ?_, by decide +kernel⟩
  have hfront : isWrapper '"' = false := h.1.1 '"' rfl
  exact absurd hfront (by decide)

end Llm

end Betsphere
