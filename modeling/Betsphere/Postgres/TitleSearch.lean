import Betsphere.InMemory.MarketListing
import Betsphere.Lib.Like
import Betsphere.Lib.Trimmed
set_option autoImplicit false

namespace Betsphere
open Like

def neutral (c : Char) : Bool := special c || isWhitespace c

/-- The case folding that both sides share; it leaves neutral characters alone. -/
structure CaseFolding where
  fold : Char → Char
  keeps : ∀ c, (neutral c || neutral (fold c)) = true → fold c = c

def CaseFolding.lowercase (folding : CaseFolding) (s : Text) : Text := s.map folding.fold

/-- `title ILIKE '%' || search || '%'`: both sides are folded before they are matched. -/
def PgMarketRepository.ilike (folding : CaseFolding) (title search : Text) : Bool :=
  like (folding.lowercase (around search)) (folding.lowercase title)

def blanks : Text → List Bool
  | [] => []
  | [c] => if c = '%' then [] else [isWhitespace c]
  | c :: d :: s =>
    if c = '\\' then isWhitespace d :: blanks s
    else if c = '%' then blanks (d :: s) else isWhitespace c :: blanks (d :: s)

def room (search : Text) : Nat := (blanks search).length + Trimmed.ends id (blanks search)

def filled (c : Char) : Char := if c = '_' then 'x' else c

def shortest : Text → Text
  | [] => []
  | [c] => if c = '%' then [] else if c = '\\' then ['%'] else [filled c]
  | c :: d :: s =>
    if c = '\\' then d :: shortest s
    else if c = '%' then shortest (d :: s) else filled c :: shortest (d :: s)

def found (search : Text) : Text :=
  (if (blanks search).head? = some false then [] else ['x']) ++ shortest search ++
    if (blanks search).getLast? = some true then ['x'] else []

namespace CaseFolding
variable (folding : CaseFolding) {c m : Char}

theorem fold_eq_iff (hm : neutral m = true) : folding.fold c = m ↔ c = m := by
  constructor
  · rintro rfl
    exact (folding.keeps c (by simp [hm])).symm
  · rintro rfl
    exact folding.keeps c (by simp [hm])

theorem neutral_fold : neutral (folding.fold c) = true ↔ neutral c = true := by
  constructor
  · intro h
    rwa [folding.keeps c (by simp [h])] at h
  · intro h
    rwa [folding.keeps c (by simp [h])]

theorem special_fold : special (folding.fold c) = special c := by
  by_cases h : neutral c = true
  · rw [folding.keeps c (by simp [h])]
  · have h' := mt folding.neutral_fold.mp h
    simp only [neutral, Bool.or_eq_true, not_or, Bool.not_eq_true] at h h'
    rw [h.1, h'.1]

theorem isWhitespace_fold : isWhitespace (folding.fold c) = isWhitespace c := by
  by_cases h : neutral c = true
  · rw [folding.keeps c (by simp [h])]
  · have h' := mt folding.neutral_fold.mp h
    simp only [neutral, Bool.or_eq_true, not_or, Bool.not_eq_true] at h h'
    rw [h.2, h'.2]

def piece (c : Char) : Token := if c = '_' then .one else .lit (folding.fold c)

theorem single_fold (c : Char) :
    single (folding.fold c) = if c = '%' then .any else folding.piece c := by
  have hpercent : folding.fold c = '%' ↔ c = '%' := folding.fold_eq_iff rfl
  have hunder : folding.fold c = '_' ↔ c = '_' := folding.fold_eq_iff rfl
  simp only [single, piece, hpercent, hunder]

theorem lowercase_around (search : Text) :
    folding.lowercase (around search) = around (folding.lowercase search) := by
  have hpercent : folding.fold '%' = '%' := (folding.fold_eq_iff rfl).mpr rfl
  simp [lowercase, around, hpercent]

theorem literal_lowercase (search : Text) : Literal (folding.lowercase search) ↔ Literal search := by
  unfold Literal lowercase
  simp only [List.mem_map, forall_exists_index, and_imp, forall_apply_eq_imp_iff₂,
    folding.special_fold]

def tokens (search : Text) : List Token := parse (folding.lowercase search ++ ['%'])

theorem ilike_iff (title search : Text) : PgMarketRepository.ilike folding title search = true ↔
    ∃ front back, front ++ back = folding.lowercase title ∧
      matching (folding.tokens search) back = true := by
  rw [PgMarketRepository.ilike, like, folding.lowercase_around, parse_around, matching_any, tokens]

theorem tokens_one (c : Char) : folding.tokens [c] =
    if c = '\\' then [.lit '%'] else if c = '%' then [.any, .any] else [folding.piece c, .any] := by
  have hslash : folding.fold c = '\\' ↔ c = '\\' := folding.fold_eq_iff rfl
  change parse [folding.fold c, '%'] = _
  by_cases h : c = '\\'
  · rw [if_pos h, parse, if_pos (hslash.mpr h)]
    rfl
  · rw [if_neg h, parse, if_neg (mt hslash.mp h), folding.single_fold]
    split <;> rfl

theorem tokens_cons (c d : Char) (s : Text) : folding.tokens (c :: d :: s) =
    if c = '\\' then .lit (folding.fold d) :: folding.tokens s
    else if c = '%' then .any :: folding.tokens (d :: s)
    else folding.piece c :: folding.tokens (d :: s) := by
  have hslash : folding.fold c = '\\' ↔ c = '\\' := folding.fold_eq_iff rfl
  change parse (folding.fold c :: folding.fold d :: (s.map folding.fold ++ ['%'])) = _
  by_cases h : c = '\\'
  · rw [if_pos h, parse, if_pos (hslash.mpr h)]
    rfl
  · rw [if_neg h, parse, if_neg (mt hslash.mp h), folding.single_fold]
    split <;> rfl

def Holds (search u : Text) : Prop :=
  List.Forall₂ (fun b c => b = true → isWhitespace c = true) (blanks search) u

theorem matching_piece {t : Text} {ts : List Token} {c : Char}
    (h : matching (folding.piece c :: ts) t = true) :
    ∃ d rest, t = d :: rest ∧ (isWhitespace c = true → isWhitespace d = true) ∧
      matching ts rest = true := by
  unfold piece at h
  by_cases hc : c = '_'
  · rw [if_pos hc] at h
    cases t with
    | nil => simp [matching] at h
    | cons d rest =>
      refine ⟨d, rest, rfl, fun hblank => ?_, h⟩
      rw [hc] at hblank
      cases hblank
  · rw [if_neg hc] at h
    cases t with
    | nil => simp [matching] at h
    | cons d rest =>
      simp only [matching, Bool.and_eq_true, decide_eq_true_eq] at h
      exact ⟨d, rest, rfl, by rw [← h.1, folding.isWhitespace_fold]; exact id, h.2⟩

theorem holds_of_matching {search t : Text} (h : matching (folding.tokens search) t = true) :
    ∃ u, u.Sublist t ∧ Holds search u := by
  induction search using blanks.induct generalizing t with
  | case1 => exact ⟨[], List.nil_sublist t, .nil⟩
  | case2 => exact ⟨[], List.nil_sublist t, .nil⟩
  | case3 c hpercent =>
    have hone : ∀ d, (isWhitespace c = true → isWhitespace d = true) → Holds [c] [d] := by
      intro d hblank
      rw [Holds, blanks, if_neg hpercent]
      exact .cons hblank .nil
    rw [folding.tokens_one, if_neg hpercent] at h
    by_cases hslash : c = '\\'
    · rw [if_pos hslash] at h
      cases t with
      | nil => simp [matching] at h
      | cons d t =>
        refine ⟨[d], (List.nil_sublist t).cons_cons d, hone d fun hblank => ?_⟩
        rw [hslash] at hblank
        cases hblank
    · rw [if_neg hslash] at h
      obtain ⟨d, rest, rfl, hblank, -⟩ := folding.matching_piece h
      exact ⟨[d], (List.nil_sublist rest).cons_cons d, hone d hblank⟩
  | case4 d s ih =>
    rw [folding.tokens_cons, if_pos rfl] at h
    cases t with
    | nil => simp [matching] at h
    | cons e t =>
      simp only [matching, Bool.and_eq_true, decide_eq_true_eq] at h
      obtain ⟨u, hu, hholds⟩ := ih h.2
      refine ⟨e :: u, hu.cons_cons e, ?_⟩
      rw [Holds, blanks, if_pos rfl]
      exact .cons (by rw [← h.1, folding.isWhitespace_fold]; exact id) hholds
  | case5 d s _ ih =>
    rw [folding.tokens_cons, if_neg (by decide), if_pos rfl] at h
    obtain ⟨a, b, rfl, hb⟩ := matching_any.mp h
    obtain ⟨u, hu, hholds⟩ := ih hb
    refine ⟨u, hu.trans (List.sublist_append_right a b), ?_⟩
    rw [Holds, blanks, if_neg (by decide), if_pos rfl]
    exact hholds
  | case6 c d s hslash hpercent ih =>
    rw [folding.tokens_cons, if_neg hslash, if_neg hpercent] at h
    obtain ⟨e, rest, rfl, hblank, hrest⟩ := folding.matching_piece h
    obtain ⟨u, hu, hholds⟩ := ih hrest
    refine ⟨e :: u, hu.cons_cons e, ?_⟩
    rw [Holds, blanks, if_neg hslash, if_neg hpercent]
    exact .cons hblank hholds

theorem holds_of_text (search : Text) :
    ∃ u, u.Sublist (folding.lowercase search) ∧ Holds search u := by
  have hblank : ∀ c, isWhitespace c = true → isWhitespace (folding.fold c) = true := by
    intro c hc
    rwa [folding.isWhitespace_fold]
  induction search using blanks.induct with
  | case1 => exact ⟨[], List.nil_sublist _, .nil⟩
  | case2 => exact ⟨[], List.nil_sublist _, .nil⟩
  | case3 c hpercent =>
    refine ⟨_, List.Sublist.refl _, ?_⟩
    rw [Holds, blanks, if_neg hpercent]
    exact .cons (hblank c) .nil
  | case4 d s ih =>
    obtain ⟨u, hu, hholds⟩ := ih
    refine ⟨folding.fold d :: u, (hu.cons_cons (folding.fold d)).cons _, ?_⟩
    rw [Holds, blanks, if_pos rfl]
    exact .cons (hblank d) hholds
  | case5 d s _ ih =>
    obtain ⟨u, hu, hholds⟩ := ih
    refine ⟨u, hu.cons _, ?_⟩
    rw [Holds, blanks, if_neg (by decide), if_pos rfl]
    exact hholds
  | case6 c d s hslash hpercent ih =>
    obtain ⟨u, hu, hholds⟩ := ih
    refine ⟨folding.fold c :: u, hu.cons_cons _, ?_⟩
    rw [Holds, blanks, if_neg hslash, if_neg hpercent]
    exact .cons (hblank c) hholds

theorem room_le {search u : Text} {title : MarketTitle}
    (hu : u.Sublist (folding.lowercase title.value))
    (hholds : Holds search u) : room search ≤ 200 := by
  have htrim : Trimmed.Trim isWhitespace (folding.lowercase title.value) :=
    (Trimmed.trimmed_iff.mp title.trimmed).map fun c => folding.isWhitespace_fold
  have hends := Trimmed.ends_le hholds
  have hlen := Trimmed.length_add_ends hu htrim
  have hsame := hholds.length_eq
  have hshort := title.short
  rw [lowercase, List.length_map] at hlen
  unfold room
  omega

theorem room_of_ilike {search : Text} {title : MarketTitle}
    (h : PgMarketRepository.ilike folding title.value search = true) : room search ≤ 200 := by
  obtain ⟨front, back, hsplit, hback⟩ := (folding.ilike_iff title.value search).mp h
  obtain ⟨u, hu, hholds⟩ := folding.holds_of_matching hback
  exact folding.room_le (hu.trans (hsplit ▸ List.sublist_append_right front back)) hholds

theorem room_of_infix {search : Text} {title : MarketTitle}
    (h : folding.lowercase search <:+: folding.lowercase title.value) : room search ≤ 200 := by
  obtain ⟨u, hu, hholds⟩ := folding.holds_of_text search
  exact folding.room_le (hu.trans h.sublist) hholds

theorem isWhitespace_filled (c : Char) : isWhitespace (filled c) = isWhitespace c := by
  unfold filled
  by_cases hc : c = '_'
  · rw [if_pos hc, hc]
    rfl
  · rw [if_neg hc]

theorem shortest_blanks (search : Text) : (shortest search).map isWhitespace = blanks search := by
  induction search using blanks.induct with
  | case1 => rfl
  | case2 => rfl
  | case3 c hpercent =>
    rw [shortest, blanks, if_neg hpercent, if_neg hpercent]
    by_cases hslash : c = '\\'
    · rw [if_pos hslash, hslash]
      rfl
    · rw [if_neg hslash, List.map_singleton, isWhitespace_filled]
  | case4 d s ih =>
    rw [shortest, if_pos rfl, blanks, if_pos rfl, List.map_cons, ih]
  | case5 d s hslash ih =>
    rw [shortest, if_neg hslash, if_pos rfl, blanks, if_neg hslash, if_pos rfl, ih]
  | case6 c d s hslash hpercent ih =>
    rw [shortest, if_neg hslash, if_neg hpercent, blanks, if_neg hslash, if_neg hpercent,
      List.map_cons, ih, isWhitespace_filled]

theorem getLast?_tail_ne {b : Bool} {bs : List Bool} (h : (b :: bs).getLast? ≠ some false) :
    bs.getLast? ≠ some false := by
  cases bs with
  | nil => simp
  | cons c bs => simpa using h

theorem matching_filled {ts : List Token} {c : Char} {t : Text} (h : matching ts t = true) :
    matching (folding.piece c :: ts) (folding.fold (filled c) :: t) = true := by
  unfold piece filled
  by_cases hu : c = '_'
  · rw [if_pos hu]
    exact h
  · rw [if_neg hu, if_neg hu]
    simp [matching, h]

/-- The shortest text is found, also in front of more text where the pattern does not end
in an escaped `%`. -/
theorem matching_shortest {search rest : Text}
    (h : rest = [] ∨ (blanks search).getLast? ≠ some false) :
    matching (folding.tokens search) (folding.lowercase (shortest search) ++ rest) = true := by
  induction search using blanks.induct with
  | case1 => exact matching_only_any rest
  | case2 =>
    rw [folding.tokens_one, if_neg (by decide), if_pos rfl]
    exact matching_any.mpr ⟨[], rest, rfl, matching_only_any rest⟩
  | case3 c hpercent =>
    rw [folding.tokens_one, if_neg hpercent, shortest, if_neg hpercent]
    by_cases hslash : c = '\\'
    · have hnil : rest = [] := by
        refine h.resolve_right fun hlast => hlast ?_
        rw [hslash]
        rfl
      have hpercent : folding.fold '%' = '%' := (folding.fold_eq_iff rfl).mpr rfl
      rw [if_pos hslash, if_pos hslash, hnil]
      simp [lowercase, matching, hpercent]
    · rw [if_neg hslash, if_neg hslash]
      exact folding.matching_filled (matching_only_any rest)
  | case4 d s ih =>
    rw [blanks, if_pos rfl] at h
    rw [folding.tokens_cons, if_pos rfl, shortest, if_pos rfl]
    simp only [lowercase, List.map_cons, List.cons_append, matching, decide_true, Bool.true_and]
    exact ih (h.imp_right getLast?_tail_ne)
  | case5 d s hslash ih =>
    rw [blanks, if_neg hslash, if_pos rfl] at h
    rw [folding.tokens_cons, if_neg hslash, if_pos rfl, shortest, if_neg hslash, if_pos rfl]
    exact matching_any.mpr ⟨[], _, rfl, ih h⟩
  | case6 c d s hslash hpercent ih =>
    rw [blanks, if_neg hslash, if_neg hpercent] at h
    rw [folding.tokens_cons, if_neg hslash, if_neg hpercent, shortest, if_neg hslash,
      if_neg hpercent]
    exact folding.matching_filled (ih (h.imp_right getLast?_tail_ne))

theorem ilike_found (search : Text) :
    PgMarketRepository.ilike folding (found search) search = true := by
  have hrest : folding.lowercase (if (blanks search).getLast? = some true then ['x'] else []) = [] ∨
      (blanks search).getLast? ≠ some false := by
    by_cases hlast : (blanks search).getLast? = some true
    · right
      simp [hlast]
    · left
      rw [if_neg hlast]
      rfl
  refine (folding.ilike_iff (found search) search).mpr
    ⟨folding.lowercase (if (blanks search).head? = some false then [] else ['x']), _, ?_,
      folding.matching_shortest hrest⟩
  simp [found, lowercase]

theorem trim_found (search : Text) : trim (found search) = found search := by
  have hblanks := shortest_blanks search
  refine Trimmed.trimmed_iff.mpr ⟨fun c hc => ?_, fun c hc => ?_⟩
  · unfold found at hc
    by_cases hhead : (blanks search).head? = some false
    · rw [if_pos hhead] at hc
      cases hshort : shortest search with
      | nil =>
        rw [← hblanks, hshort] at hhead
        cases hhead
      | cons d s =>
        rw [← hblanks, hshort] at hhead
        have hcd : d = c := by simpa [hshort] using hc
        rw [← hcd]
        simpa using hhead
    · rw [if_neg hhead] at hc
      have hcx : 'x' = c := by simpa using hc
      rw [← hcx]
      rfl
  · unfold found at hc
    by_cases hlast : (blanks search).getLast? = some true
    · rw [if_pos hlast, List.getLast?_append] at hc
      have hcx : 'x' = c := by simpa using hc
      rw [← hcx]
      rfl
    · rw [if_neg hlast, List.append_nil, List.getLast?_append] at hc
      rw [← hblanks, List.getLast?_map] at hlast
      cases hshort : (shortest search).getLast? with
      | none =>
        have hnil := List.getLast?_eq_none_iff.mp hshort
        rw [hshort, ← hblanks, hnil] at hc
        have hcx : 'x' = c := by simpa using hc
        rw [← hcx]
        rfl
      | some d =>
        have hcd : d = c := by simpa [hshort] using hc
        rw [← hcd]
        simpa [hshort] using hlast

theorem length_found {search : Text} (h : room search ≤ 200) : (found search).length ≤ 200 := by
  have hlen : (shortest search).length = (blanks search).length := by
    rw [← shortest_blanks, List.length_map]
  unfold room Trimmed.ends at h
  unfold found
  rw [List.length_append, List.length_append, hlen]
  cases hblanks : blanks search with
  | nil => simp
  | cons b bs =>
    rw [hblanks] at h
    have hlast : ((b :: bs).getLast?.any id = true) ↔ (b :: bs).getLast? = some true := by
      rw [Trimmed.any_iff_exists]
      simp
    rw [List.head?_cons] at h ⊢
    simp only [hlast, Option.any_some, id] at h
    split at h <;> split at h <;> simp_all <;> omega

theorem special_shortest {search : Text} (h : '\\' ∉ search) :
    ∀ c ∈ shortest search, special c = false := by
  have hfilled : ∀ c, c ≠ '\\' → c ≠ '%' → special (filled c) = false := by
    intro c hslash hpercent
    unfold filled
    by_cases hu : c = '_'
    · rw [if_pos hu]
      rfl
    · simp [special, hu, hslash, hpercent]
  induction search using blanks.induct with
  | case1 => simp [shortest]
  | case2 => simp [shortest]
  | case3 c hpercent =>
    have hslash : c ≠ '\\' := fun heq => h (by simp [heq])
    rw [shortest, if_neg hpercent, if_neg hslash]
    simpa using hfilled c hslash hpercent
  | case4 d s ih => exact absurd (List.mem_cons_self) h
  | case5 d s hslash ih =>
    rw [shortest, if_neg hslash, if_pos rfl]
    exact ih fun hmem => h (List.mem_cons_of_mem _ hmem)
  | case6 c d s hslash hpercent ih =>
    rw [shortest, if_neg hslash, if_neg hpercent]
    intro e he
    rcases List.mem_cons.mp he with rfl | he
    · exact hfilled c hslash hpercent
    · exact ih (fun hmem => h (List.mem_cons_of_mem _ hmem)) e he

/-- Every escape costs a backslash. -/
theorem count_shortest (search : Text) :
    (shortest search).count '\\' + (if '\\' ∈ search then 1 else 0) ≤ search.count '\\' := by
  have hfilled : ∀ c, c ≠ '\\' → filled c ≠ '\\' := by
    intro c hslash
    unfold filled
    split
    · decide
    · exact hslash
  induction search using blanks.induct with
  | case1 => decide
  | case2 => decide
  | case3 c hpercent =>
    by_cases hslash : c = '\\'
    · subst hslash
      decide
    · rw [shortest, if_neg hpercent, if_neg hslash]
      simp [Ne.symm hslash, hfilled c hslash, hslash]
  | case4 d s ih =>
    rw [shortest, if_pos rfl, if_pos List.mem_cons_self, List.count_cons_self, List.count_cons,
      List.count_cons]
    omega
  | case5 d s hslash ih =>
    rw [shortest, if_neg hslash, if_pos rfl, List.count_cons_of_ne (by decide)]
    simpa using ih
  | case6 c d s hslash hpercent ih =>
    rw [shortest, if_neg hslash, if_neg hpercent, List.count_cons_of_ne (hfilled c hslash),
      List.count_cons_of_ne hslash]
    simpa [Ne.symm hslash] using ih

theorem count_lowercase (s : Text) {m : Char} (hm : neutral m = true) :
    (folding.lowercase s).count m = s.count m := by
  induction s with
  | nil => rfl
  | cons c s ih =>
    have hiff : (folding.fold c == m) = (c == m) := by
      rw [Bool.eq_iff_iff, beq_iff_eq, beq_iff_eq, folding.fold_eq_iff hm]
    change (folding.fold c :: folding.lowercase s).count m = _
    rw [List.count_cons, List.count_cons, ih, hiff]

theorem mem_found {search : Text} {c : Char} (h : c ∈ found search) :
    c = 'x' ∨ c ∈ shortest search := by
  unfold found at h
  rcases List.mem_append.mp h with h | h
  · rcases List.mem_append.mp h with h | h
    · split at h
      · cases h
      · exact .inl (by simpa using h)
    · exact .inr h
  · split at h
    · exact .inl (by simpa using h)
    · cases h

theorem count_found (search : Text) : (found search).count '\\' = (shortest search).count '\\' := by
  unfold found
  rw [List.count_append, List.count_append]
  split <;> split <;> simp

theorem not_infix_found {search : Text} (h : ¬Literal search) :
    ¬folding.lowercase search <:+: folding.lowercase (found search) := by
  intro hinfix
  by_cases hslash : '\\' ∈ search
  · have hcount := hinfix.sublist.count_le '\\'
    rw [folding.count_lowercase _ (by decide), folding.count_lowercase _ (by decide),
      count_found] at hcount
    have hless := count_shortest search
    rw [if_pos hslash] at hless
    omega
  · have hex : ∃ c ∈ search, special c = true := by
      by_contra hnone
      exact h fun c hc => by
        rw [← Bool.not_eq_true]
        exact fun hs => hnone ⟨c, hc, hs⟩
    obtain ⟨c, hc, hspecial⟩ := hex
    have hmem : folding.fold c ∈ folding.lowercase (found search) :=
      hinfix.subset (List.mem_map_of_mem hc)
    obtain ⟨d, hd, heq⟩ := List.mem_map.mp hmem
    have hsame : special d = true := by
      rw [← folding.special_fold, heq, folding.special_fold, hspecial]
    rcases mem_found hd with rfl | hd
    · cases hsame
    · rw [special_shortest hslash d hd] at hsame
      cases hsame

theorem found_ne_nil (search : Text) : found search ≠ [] := by
  unfold found
  cases hshort : shortest search with
  | nil =>
    have hblanks := shortest_blanks search
    rw [hshort] at hblanks
    simp [← hblanks]
  | cons c s => simp

theorem ilike_literal_iff (search : Text) :
    (∀ title : MarketTitle, PgMarketRepository.ilike folding title.value search = true ↔
      folding.lowercase search <:+: folding.lowercase title.value) ↔
    (Literal search ∨ 200 < room search) := by
  constructor
  · intro hsame
    by_contra hneither
    obtain ⟨hspecial, hroom⟩ := not_or.mp hneither
    have hinfix := (hsame ⟨found search, found_ne_nil search, length_found (not_lt.mp hroom),
      trim_found search⟩).mp (folding.ilike_found search)
    exact folding.not_infix_found hspecial hinfix
  · rintro (hliteral | hroom) title
    · rw [PgMarketRepository.ilike, folding.lowercase_around,
        like_around_literal ((folding.literal_lowercase search).mpr hliteral)]
    · constructor
      · intro h
        exact absurd (folding.room_of_ilike h) (not_le.mpr hroom)
      · intro h
        exact absurd (folding.room_of_infix h) (not_le.mpr hroom)

end CaseFolding

/-- The title search is literal, and selects what the in-memory listing selects, exactly
when the searched text has no `%`, `_` or backslash in it, or when no title is long enough
for what its pattern asks for. -/
theorem title_search_literal_iff (folding : CaseFolding) (filter : MarketFilter) (search : Text) :
    (∀ m : Market,
      (PgMarketRepository.ilike folding m.title.value search = true ↔
        folding.lowercase search <:+: folding.lowercase m.title.value) ∧
      PgMarketRepository.selected (PgMarketRepository.ilike folding)
          { filter with search := some search } m =
        InMemoryMarketRepository.selected folding.lowercase
          { filter with search := some search } m) ↔
    (Literal search ∨ 200 < room search) := by
  rw [← folding.ilike_literal_iff]
  constructor
  · intro h title
    exact (h (Market.new ⟨0⟩ title none none none 0)).1
  · intro h m
    refine ⟨h m.title, ?_⟩
    have hsame : PgMarketRepository.ilike folding m.title.value search =
        decide (folding.lowercase search <:+: folding.lowercase m.title.value) := by
      rw [Bool.eq_iff_iff, decide_eq_true_eq]
      exact h m.title
    simp only [PgMarketRepository.selected, InMemoryMarketRepository.selected, Option.all_some,
      hsame]

def asciiLower (c : Char) : Char :=
  if 'A' ≤ c ∧ c ≤ 'Z' then Char.ofNat (c.toNat + 32) else c

theorem asciiLower_keeps (c : Char) (h : (neutral c || neutral (asciiLower c)) = true) :
    asciiLower c = c := by
  unfold asciiLower at h ⊢
  split
  · rename_i hupper
    rw [if_pos hupper] at h
    obtain ⟨n, hn⟩ : ∃ n, n = c.toNat := ⟨_, rfl⟩
    have hc : c = Char.ofNat n := by rw [hn, Char.ofNat_toNat]
    have hlow : 65 ≤ n := hn ▸ hupper.1
    have hhigh : n ≤ 90 := hn ▸ hupper.2
    subst hc
    interval_cases n <;> exact absurd h (by decide)
  · rfl

def CaseFolding.ascii : CaseFolding := ⟨asciiLower, asciiLower_keeps⟩

namespace Sample

/-- A searched text that a pattern reads differently, and a title without it. -/
def hundredPercent : Text := "100%".toList

def hundredYears : Market :=
  Market.new ⟨5⟩ ⟨"In 100 years".toList, by decide, by decide, by decide⟩ none none none 0

end Sample

theorem percent_finds_more :
    PgMarketRepository.list (PgMarketRepository.ilike .ascii) [Sample.hundredYears]
      { MarketFilter.default with search := some Sample.hundredPercent } =
        .ok [Sample.hundredYears] ∧
    InMemoryMarketRepository.list .debug CaseFolding.ascii.lowercase [Sample.hundredYears]
      { MarketFilter.default with search := some Sample.hundredPercent } = .ok [] ∧
    ¬∀ m : Market, PgMarketRepository.ilike .ascii m.title.value Sample.hundredPercent = true ↔
      CaseFolding.ascii.lowercase Sample.hundredPercent <:+:
        CaseFolding.ascii.lowercase m.title.value := by
  refine ⟨by decide, by decide, fun h => ?_⟩
  have hfound := (h Sample.hundredYears).mp (by decide)
  exact absurd hfound (by decide)

end Betsphere
