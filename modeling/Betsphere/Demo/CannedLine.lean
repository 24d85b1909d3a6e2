import Betsphere.Demo.Tidy
import Betsphere.Lib.Binary64
import Betsphere.Lib.Replace
set_option autoImplicit false

namespace Betsphere

structure MarketView where
  market : Market
  outcomes : List Outcome

def Price.asFraction (p : Price) : Nat × Nat := Binary64.ofFraction p.tenThousandths.toNat 10000

namespace Chatter
open Replace

/-- What the bots draw: whether they stay on topic, an outcome and a line. -/
structure Draws where
  onTopic : Bool
  outcome : Nat
  line : Nat

def choose {α : Type} (items : List α) (draw : Nat) : Option α := items[draw % items.length]?

def globalLines : List Text := [
  "gm ☕",
  "this feed moves fast today",
  "anyone else up three markets in a row?",
  "my portfolio is 90% vibes at this point",
  "just topped up, feeling reckless",
  "who's fading the favourite today?",
  "new here — what's everyone trading?",
  "liquidity looks healthy this morning",
  "screenshot this, I called it first",
  "brb making coffee, nobody move the odds",
  "someone explain why I keep buying the top",
  "back to break even, I'll take it",
  "the charts on the new markets are wild",
  "I only bet on things I can't influence, keeps it honest",
  "reading the board like tea leaves",
  "quiet in here, someone open a market"].map String.toList

def marketLines : List Text := [
  "{outcome} at {price} is a steal",
  "no way {outcome} stays this cheap",
  "loaded up on {outcome}, see you at resolution",
  "{outcome} is overpriced, I'm fading it",
  "who keeps pumping {outcome}?",
  "this resolves {outcome}, mark it",
  "{price} on {outcome}? free money",
  "I'd take the other side of {outcome} all day",
  "waiting for {outcome} to dip before I add",
  "the whole board is mispricing {outcome}",
  "still can't believe {outcome} is the favourite",
  "\"{title}\" is the only question that matters today",
  "in on {outcome}, small size, big conviction",
  "moved my stake off {outcome}, the news changed",
  "{outcome} at {price} and nobody's talking about it"].map String.toList

def pick (lines : List Text) (draw : Nat) : Text := (choose lines draw).getD "gm".toList

def outcomeSlot : Text := "{outcome}".toList
def priceSlot : Text := "{price}".toList
def titleSlot : Text := "{title}".toList

/-- `{:.0}%` of the fraction times a hundred. -/
def percent (p : Price) : Text :=
  let (fraction, power) := p.asFraction
  let (scaled, power) := Binary64.ofFraction (fraction * 100) (2 ^ power)
  Nat.toDigits 10 (Binary64.roundHalfEven scaled (2 ^ power)) ++ ['%']

/-- The placeholders one after the other, each in all of what the one before it left. -/
def fillIn (template : Text) (outcome : Outcome) (view : MarketView) : Text :=
  replace titleSlot view.market.title.value
    (replace priceSlot (percent outcome.currentPrice)
      (replace outcomeSlot outcome.label.value template))

def cannedLine (room : Option MarketView) (draws : Draws) : Text :=
  match room.filter fun _ => draws.onTopic with
  | none => pick globalLines draws.line
  | some view =>
    match choose view.outcomes draws.outcome with
    | none => pick globalLines draws.line
    | some outcome => fillIn (pick marketLines draws.line) outcome view

/-- The template with its placeholders filled in, and nothing else touched. -/
def filledIn (template : Text) (outcome : Outcome) (view : MarketView) : Text :=
  fill [(outcomeSlot, outcome.label.value), (priceSlot, percent outcome.currentPrice),
    (titleSlot, view.market.title.value)] template

def Unchanged (label title : Text) : Prop :=
  ¬priceSlot <:+: label ∧ (¬titleSlot <:+: label ∨ title = titleSlot)

/-- A piece of a template. -/
inductive Segment where
  | words (s : String)
  | outcome
  | price
  | title
  deriving DecidableEq

def Segment.render (label price title : Text) : Segment → Text
  | .words s => s.toList
  | .outcome => label
  | .price => price
  | .title => title

def render (label price title : Text) (segments : List Segment) : Text :=
  segments.flatMap (Segment.render label price title)

def segments : List (List Segment) := [
  [.outcome, .words " at ", .price, .words " is a steal"],
  [.words "no way ", .outcome, .words " stays this cheap"],
  [.words "loaded up on ", .outcome, .words ", see you at resolution"],
  [.outcome, .words " is overpriced, I'm fading it"],
  [.words "who keeps pumping ", .outcome, .words "?"],
  [.words "this resolves ", .outcome, .words ", mark it"],
  [.price, .words " on ", .outcome, .words "? free money"],
  [.words "I'd take the other side of ", .outcome, .words " all day"],
  [.words "waiting for ", .outcome, .words " to dip before I add"],
  [.words "the whole board is mispricing ", .outcome],
  [.words "still can't believe ", .outcome, .words " is the favourite"],
  [.words "\"", .title, .words "\" is the only question that matters today"],
  [.words "in on ", .outcome, .words ", small size, big conviction"],
  [.words "moved my stake off ", .outcome, .words ", the news changed"],
  [.outcome, .words " at ", .price, .words " and nobody's talking about it"]]

theorem marketLines_segments :
    marketLines = segments.map (render outcomeSlot priceSlot titleSlot) := by
  decide +kernel

/-- What every market line is: words without braces, of which not all are white space, an
outcome at most once, and room for any label and title. -/
structure Template (line : List Segment) : Prop where
  plain : ∀ piece ∈ line, '{' ∉ piece.render [] [] [] ∧ '}' ∉ piece.render [] [] []
  single : line.count .outcome ≤ 1
  speaks : ∃ c ∈ render [] [] [] line, isWhitespace c = false
  short : (render [] [] [] line).length + 200 * line.length ≤ 2000

theorem template_of_mem {line : List Segment} (h : line ∈ segments) : Template line := by
  have hall : ∀ line ∈ segments,
      (∀ piece ∈ line, '{' ∉ piece.render [] [] [] ∧ '}' ∉ piece.render [] [] []) ∧
      line.count .outcome ≤ 1 ∧ (render [] [] [] line).all isWhitespace = false ∧
      (render [] [] [] line).length + 200 * line.length ≤ 2000 := by
    decide +kernel
  obtain ⟨hplain, hsingle, hspeaks, hshort⟩ := hall line h
  exact ⟨hplain, hsingle, by simpa using hspeaks, hshort⟩

theorem outcomeSlot_infix {line : List Segment} (h : line ∈ segments) :
    outcomeSlot <:+: render outcomeSlot priceSlot titleSlot line ↔ .outcome ∈ line := by
  have hall : ∀ line ∈ segments,
      outcomeSlot <:+: render outcomeSlot priceSlot titleSlot line ↔ .outcome ∈ line := by
    decide +kernel
  exact hall line h

section Slots

theorem outcomeSlot_slot : Slot '{' '}' outcomeSlot :=
  ⟨"outcome".toList, by decide +kernel⟩

theorem priceSlot_slot : Slot '{' '}' priceSlot :=
  ⟨"price".toList, by decide +kernel⟩

theorem titleSlot_slot : Slot '{' '}' titleSlot :=
  ⟨"title".toList, by decide +kernel⟩

end Slots

section Rendered
variable {label price title pat new : Text} {line : List Segment} {piece : Segment}

@[simp] theorem render_nil : render label price title [] = [] := rfl

@[simp] theorem render_cons :
    render label price title (piece :: line) =
      piece.render label price title ++ render label price title line := rfl

theorem render_opens (hplain : ∀ piece ∈ line, '}' ∉ piece.render [] [] [])
    (hprice : Opens '{' '}' price) (htitle : Opens '{' '}' title)
    (hnone : .outcome ∉ line) : Opens '{' '}' (render label price title line) := by
  induction line with
  | nil => exact opens_of_not_mem (by simp)
  | cons piece line ih =>
    obtain ⟨hhead, htail⟩ := List.forall_mem_cons.mp hplain
    rw [List.mem_cons, not_or] at hnone
    refine Opens.append ?_ (ih htail hnone.2)
    cases piece with
    | words s => exact opens_of_not_mem hhead
    | outcome => exact absurd rfl hnone.1
    | price => exact hprice
    | title => exact htitle

theorem replace_render (hpat : Slot '{' '}' pat)
    (hplain : ∀ piece ∈ line, '{' ∉ piece.render [] [] [] ∧ '}' ∉ piece.render [] [] [])
    (hsingle : line.count .outcome ≤ 1)
    (hprice : Closed '{' '}' price ∧ Opens '{' '}' price)
    (htitle : Closed '{' '}' title ∧ Opens '{' '}' title) :
    replace pat new (render label price title line) =
      render (replace pat new label) (replace pat new price) (replace pat new title) line := by
  induction line with
  | nil => rfl
  | cons piece line ih =>
    obtain ⟨hhead, htail⟩ := List.forall_mem_cons.mp hplain
    rw [List.count_cons] at hsingle
    have hrest := ih htail (by omega)
    have happart : Apart pat (piece.render label price title) (render label price title line) := by
      cases piece with
      | words s => exact hpat.apart_of_closed (closed_of_not_mem hhead.1)
      | price => exact hpat.apart_of_closed hprice.1
      | title => exact hpat.apart_of_closed htitle.1
      | outcome =>
        have hnone : .outcome ∉ line := by
          rw [← List.count_eq_zero]
          simp only [beq_self_eq_true, if_true] at hsingle
          omega
        exact hpat.apart_of_opens
          (render_opens (fun piece h => (htail piece h).2) hprice.2 htitle.2 hnone)
    rw [render_cons, replace_append hpat.ne_nil happart, hrest, render_cons]
    cases piece with
    | words s =>
      have hnot : ¬pat <:+: s.toList := by
        intro hin
        obtain ⟨inner, rfl, -⟩ := hpat
        exact hhead.1 (hin.subset List.mem_cons_self)
      exact congrArg (· ++ _) (replace_of_absent hnot)
    | outcome | price | title => rfl

end Rendered

section Price

theorem asFraction_le (p : Price) : p.asFraction.1 ≤ 2 ^ p.asFraction.2 := by
  have hone : p.tenThousandths.toNat ≤ 1 * 10000 := by
    have hrange := p.inRange
    omega
  have hle := Binary64.ofFraction_le (by decide) hone
  rwa [Nat.one_mul] at hle

theorem percent_digits (p : Price) : ∃ n ≤ 100, percent p = Nat.toDigits 10 n ++ ['%'] := by
  refine ⟨_, ?_, rfl⟩
  have hhundred : p.asFraction.1 * 100 ≤ 100 * 2 ^ p.asFraction.2 := by
    rw [Nat.mul_comm]
    exact Nat.mul_le_mul_left 100 (asFraction_le p)
  have hscaled := Binary64.ofFraction_le (Nat.two_pow_pos _) hhundred
  exact Binary64.roundHalfEven_le (Nat.two_pow_pos _) hscaled

theorem percent_plain (p : Price) :
    (percent p).length ≤ 4 ∧ '{' ∉ percent p ∧ '}' ∉ percent p ∧ '%' ∈ percent p := by
  obtain ⟨n, hn, hpercent⟩ := percent_digits p
  have hall : ∀ n < 101, (Nat.toDigits 10 n ++ ['%']).length ≤ 4 ∧
      '{' ∉ Nat.toDigits 10 n ++ ['%'] ∧ '}' ∉ Nat.toDigits 10 n ++ ['%'] ∧
      '%' ∈ Nat.toDigits 10 n ++ ['%'] := by
    decide +kernel
  rw [hpercent]
  exact hall n (Nat.lt_succ_of_le hn)

end Price

section Filled
variable {line : List Segment} {outcome : Outcome} {view : MarketView}

def relabelled (outcome : Outcome) (view : MarketView) : Text :=
  replace titleSlot view.market.title.value
    (replace priceSlot (percent outcome.currentPrice) outcome.label.value)

theorem slot_absent {pat s : Text} (hpat : Slot '{' '}' pat) (h : '{' ∉ s) : ¬pat <:+: s := by
  intro hin
  obtain ⟨inner, rfl, -⟩ := hpat
  exact h (hin.subset List.mem_cons_self)

theorem fillIn_render (h : Template line) :
    fillIn (render outcomeSlot priceSlot titleSlot line) outcome view =
      render (relabelled outcome view) (percent outcome.currentPrice) view.market.title.value
        line := by
  obtain ⟨-, hopen, hclose, -⟩ := percent_plain outcome.currentPrice
  have hprice := And.intro priceSlot_slot.closed priceSlot_slot.opens
  have htitle := And.intro titleSlot_slot.closed titleSlot_slot.opens
  have hpercent : Closed '{' '}' (percent outcome.currentPrice) ∧
      Opens '{' '}' (percent outcome.currentPrice) :=
    ⟨closed_of_not_mem hopen, opens_of_not_mem hclose⟩
  have hprices : ¬outcomeSlot <:+: priceSlot := by decide +kernel
  have htitles : ¬outcomeSlot <:+: titleSlot ∧ ¬priceSlot <:+: titleSlot := by decide +kernel
  rw [fillIn, replace_render outcomeSlot_slot h.plain h.single hprice htitle,
    replace_whole outcomeSlot_slot.ne_nil, replace_of_absent hprices,
    replace_of_absent htitles.1, replace_render priceSlot_slot h.plain h.single hprice htitle,
    replace_whole priceSlot_slot.ne_nil, replace_of_absent htitles.2,
    replace_render titleSlot_slot h.plain h.single hpercent htitle,
    replace_whole titleSlot_slot.ne_nil,
    replace_of_absent (slot_absent titleSlot_slot hopen)]
  rfl

theorem filledIn_render
    (hplain : ∀ piece ∈ line, '{' ∉ piece.render [] [] [] ∧ '}' ∉ piece.render [] [] []) :
    filledIn (render outcomeSlot priceSlot titleSlot line) outcome view =
      render outcome.label.value (percent outcome.currentPrice) view.market.title.value line := by
  induction line with
  | nil => rfl
  | cons piece line ih =>
    obtain ⟨hhead, htail⟩ := List.forall_mem_cons.mp hplain
    rw [render_cons, render_cons, ← ih htail]
    have hnot : ∀ {pat other : Text}, Slot '{' '}' pat → Slot '{' '}' other → pat ≠ other →
        ∀ s, ¬decide (pat <+: other ++ s) = true :=
      fun hpat hother hne _ hin => hne (hpat.eq_of_prefix hother (of_decide_eq_true hin))
    have hfirst : ∀ {pat s : Text}, decide (pat <+: pat ++ s) = true :=
      fun {pat s} => decide_eq_true (List.prefix_append pat s)
    cases piece with
    | words s =>
      have hslots : ∀ pat ∈ [outcomeSlot, priceSlot, titleSlot], pat.head? = some '{' := by
        decide +kernel
      refine fill_append (fun c hc v hv heq => ?_) fun v hv => ?_
      · have hmark := hslots v.1 (List.mem_map_of_mem (f := Prod.fst) hv)
        rw [heq, Option.some.injEq] at hmark
        exact hhead.1 (hmark ▸ hc)
      · have hmark := hslots v.1 (List.mem_map_of_mem (f := Prod.fst) hv)
        exact fun hnil => by simp [hnil] at hmark
    | outcome =>
      exact fill_pattern (v := (outcomeSlot, outcome.label.value)) outcomeSlot_slot.ne_nil
        (List.find?_cons_of_pos hfirst)
    | price =>
      have hskip := hnot outcomeSlot_slot priceSlot_slot (by decide +kernel)
      refine fill_pattern (v := (priceSlot, percent outcome.currentPrice)) priceSlot_slot.ne_nil ?_
      rw [List.find?_cons_of_neg, List.find?_cons_of_pos]
      · exact hfirst
      · exact hskip _
    | title =>
      have hskip := hnot outcomeSlot_slot titleSlot_slot (by decide +kernel)
      have hskip' := hnot priceSlot_slot titleSlot_slot (by decide +kernel)
      refine fill_pattern (v := (titleSlot, view.market.title.value)) titleSlot_slot.ne_nil ?_
      rw [List.find?_cons_of_neg, List.find?_cons_of_neg, List.find?_cons_of_pos]
      · exact hfirst
      · exact hskip' _
      · exact hskip _

theorem render_eq_iff {label label' price title : Text} (hsingle : line.count .outcome ≤ 1) :
    render label price title line = render label' price title line ↔
      .outcome ∉ line ∨ label = label' := by
  induction line with
  | nil => simp
  | cons piece line ih =>
    rw [List.count_cons] at hsingle
    have hrest := ih (by omega)
    rw [render_cons, render_cons, List.mem_cons, not_or]
    cases piece with
    | words s | price | title => simpa [Segment.render] using hrest
    | outcome =>
      have hnone : .outcome ∉ line := by
        rw [← List.count_eq_zero]
        simp only [beq_self_eq_true, if_true] at hsingle
        omega
      rw [hrest.mpr (.inl hnone), List.append_left_inj]
      simp [Segment.render]

/-- Each `{price}` in the label leaves a percent sign behind, and nothing takes one away. -/
theorem relabelled_iff : relabelled outcome view = outcome.label.value ↔
    Unchanged outcome.label.value view.market.title.value := by
  let weight : Char → Nat := fun c => if c = '%' then 1 else 0
  have hslots : (priceSlot.map weight).sum = 0 ∧ (titleSlot.map weight).sum = 0 := by
    decide +kernel
  constructor
  · intro heq
    have hprice : ¬priceSlot <:+: outcome.label.value := by
      intro hin
      obtain ⟨front, rest, hlabel, hreplaced⟩ :=
        replace_infix (percent outcome.currentPrice) priceSlot_slot.ne_nil hin
      obtain ⟨k, hk⟩ := replace_sum (percent outcome.currentPrice) priceSlot_slot.ne_nil weight
        rest
      obtain ⟨j, hj⟩ := replace_sum view.market.title.value titleSlot_slot.ne_nil weight
        (replace priceSlot (percent outcome.currentPrice) outcome.label.value)
      have hpercent : 1 ≤ ((percent outcome.currentPrice).map weight).sum := by
        have hmem := (percent_plain outcome.currentPrice).2.2.2
        exact List.single_le_sum (by simp) _ (List.mem_map.mpr ⟨'%', hmem, rfl⟩)
      have hsame := congrArg (fun s => (s.map weight).sum) heq
      dsimp only [relabelled] at hsame
      have hafter := congrArg (fun s => (s.map weight).sum) hreplaced
      have hbefore := congrArg (fun s => (s.map weight).sum) hlabel
      simp only [List.map_append, List.sum_append] at hafter hbefore
      rw [hslots.1] at hk hbefore
      rw [hslots.2] at hj
      omega
    refine ⟨hprice, ?_⟩
    rw [relabelled, replace_of_absent hprice] at heq
    exact (replace_eq_self_iff titleSlot_slot.ne_nil).mp heq
  · rintro ⟨hprice, htitle⟩
    rw [relabelled, replace_of_absent hprice]
    exact (replace_eq_self_iff titleSlot_slot.ne_nil).mpr htitle

theorem mem_render {label price title : Text} {c : Char} (h : c ∈ render [] [] [] line) :
    c ∈ render label price title line := by
  obtain ⟨piece, hpiece, hc⟩ := List.mem_flatMap.mp h
  refine List.mem_flatMap.mpr ⟨piece, hpiece, ?_⟩
  cases piece with
  | words s => exact hc
  | outcome | price | title => exact absurd hc (by simp [Segment.render])

theorem render_length {label price title : Text} {n : Nat} (hlabel : label.length ≤ n)
    (hprice : price.length ≤ n) (htitle : title.length ≤ n) :
    (render label price title line).length ≤ (render [] [] [] line).length + n * line.length := by
  induction line with
  | nil => simp
  | cons piece line ih =>
    have hpiece : (piece.render label price title).length ≤
        (piece.render [] [] []).length + n := by
      cases piece with
      | words s => exact Nat.le_add_right _ n
      | outcome => exact hlabel.trans (Nat.le_add_left n _)
      | price => exact hprice.trans (Nat.le_add_left n _)
      | title => exact htitle.trans (Nat.le_add_left n _)
    simp only [render_cons, List.length_append, List.length_cons, Nat.mul_add, Nat.mul_one]
    omega

end Filled

namespace Sample

def longTitle : MarketTitle :=
  ⟨List.replicate 200 'a', by decide +kernel, by decide +kernel, by decide +kernel⟩

def titleLabel : OutcomeLabel :=
  ⟨(List.replicate 14 titleSlot).flatten, by decide +kernel, by decide +kernel, by decide +kernel⟩

def plainLabel : OutcomeLabel :=
  ⟨['d', 'r', 'y'], by decide +kernel, by decide +kernel, by decide +kernel⟩

def board : MarketView where
  market := Market.new ⟨7⟩ longTitle none none none 0
  outcomes := [Outcome.new ⟨1⟩ ⟨7⟩ titleLabel ⟨6200, by decide⟩,
    Outcome.new ⟨2⟩ ⟨7⟩ plainLabel ⟨3800, by decide⟩]

end Sample

section Posted
variable {view : MarketView} {outcome : Outcome} {template : Text} {draws : Draws}

theorem message_accepted {s : Text} (hvoice : ∃ c ∈ s, isWhitespace c = false)
    (hshort : s.length ≤ 2000) : ∃ body, MessageBody.new s = .ok body := by
  obtain ⟨c, hc, hblack⟩ := hvoice
  have hne : trim s ≠ [] := List.ne_nil_of_mem (Llm.mem_trim hc hblack)
  have htrim : (trim s).length ≤ 2000 := (Llm.trim_within s).length_le.trans hshort
  rw [MessageBody.new, BoundedText.new, dif_neg hne, dif_pos htrim]
  exact ⟨_, rfl⟩

theorem filledIn_accepted {line : List Segment} (h : Template line) :
    ∃ body, MessageBody.new
      (filledIn (render outcomeSlot priceSlot titleSlot line) outcome view) = .ok body := by
  rw [filledIn_render h.plain]
  obtain ⟨c, hc, hblack⟩ := h.speaks
  refine message_accepted ⟨c, mem_render hc, hblack⟩ ?_
  have hlabel : outcome.label.value.length ≤ 200 := outcome.label.short.trans (by decide)
  have hprice : (percent outcome.currentPrice).length ≤ 200 :=
    (percent_plain outcome.currentPrice).1.trans (by decide)
  exact (render_length hlabel hprice view.market.title.short).trans h.short

theorem cannedLine_on_topic (hon : draws.onTopic = true)
    (houtcome : choose view.outcomes draws.outcome = some outcome)
    (hline : choose marketLines draws.line = some template) :
    cannedLine (some view) draws = fillIn template outcome view := by
  simp only [cannedLine, Option.filter_some, hon, if_true, houtcome, pick, hline, Option.getD_some]

/-- On topic the line is the template filled in, and accepted, exactly when the placeholders
that are filled in behind the outcome leave the label alone. -/
theorem canned_line_filled_iff (view : MarketView) (outcome : Outcome) (template : Text)
    (draws : Draws) (hon : draws.onTopic = true)
    (houtcome : choose view.outcomes draws.outcome = some outcome)
    (hline : choose marketLines draws.line = some template) :
    ((∃ body, MessageBody.new (cannedLine (some view) draws) = .ok body) ∧
        cannedLine (some view) draws = filledIn template outcome view) ↔
      ¬outcomeSlot <:+: template ∨
        Unchanged outcome.label.value view.market.title.value := by
  have hmem : template ∈ marketLines := List.mem_of_getElem? hline
  rw [marketLines_segments] at hmem
  obtain ⟨line, hsegments, rfl⟩ := List.mem_map.mp hmem
  have htemplate := template_of_mem hsegments
  rw [cannedLine_on_topic hon houtcome hline, outcomeSlot_infix hsegments, ← relabelled_iff,
    ← render_eq_iff htemplate.single, ← filledIn_render htemplate.plain, ← fillIn_render htemplate]
  constructor
  · exact And.right
  · intro heq
    exact ⟨heq ▸ filledIn_accepted htemplate, heq⟩

theorem canned_line_filled_dry :
    (∃ body, MessageBody.new (cannedLine (some Sample.board) ⟨true, 1, 0⟩) = .ok body) ∧
      cannedLine (some Sample.board) ⟨true, 1, 0⟩ = "dry at 38% is a steal".toList := by
  have hunchanged : Unchanged Sample.plainLabel.value Sample.board.market.title.value := by
    unfold Unchanged
    decide +kernel
  have hfilled := (canned_line_filled_iff Sample.board
    (Outcome.new ⟨2⟩ ⟨7⟩ Sample.plainLabel ⟨3800, by decide⟩)
    "{outcome} at {price} is a steal".toList ⟨true, 1, 0⟩ rfl rfl (by decide +kernel)).mpr
    (.inr hunchanged)
  exact ⟨hfilled.1, hfilled.2.trans (by decide +kernel)⟩

/-- A label of title placeholders grows by the title each time, and the line is refused. -/
theorem canned_line_refused :
    choose marketLines 0 = some "{outcome} at {price} is a steal".toList ∧
      choose Sample.board.outcomes 0 =
        some (Outcome.new ⟨1⟩ ⟨7⟩ Sample.titleLabel ⟨6200, by decide⟩) ∧
      MessageBody.new (cannedLine (some Sample.board) ⟨true, 0, 0⟩) =
        .error (.validation "message must be at most 2000 characters") := by
  refine ⟨by decide +kernel, rfl, by decide +kernel⟩

/-- Away from the topic, or in a market without outcomes, the line is always accepted. -/
theorem small_talk_accepted {room : Option MarketView}
    (h : ∀ view, room = some view → draws.onTopic = false ∨ view.outcomes = []) :
    ∃ body, MessageBody.new (cannedLine room draws) = .ok body := by
  have hlines : ∀ line ∈ globalLines, line.all isWhitespace = false ∧ line.length ≤ 2000 := by
    decide +kernel
  have hpick : pick globalLines draws.line ∈ globalLines := by
    have hindex : draws.line % globalLines.length < globalLines.length :=
      Nat.mod_lt _ (by decide)
    rw [pick, choose, List.getElem?_eq_getElem hindex, Option.getD_some]
    exact List.getElem_mem hindex
  have hcanned : cannedLine room draws = pick globalLines draws.line := by
    unfold cannedLine
    split
    · rfl
    · rename_i view hview
      obtain ⟨hroom, hon⟩ := Option.filter_eq_some_iff.mp hview
      rcases h view hroom with hoff | hempty
      · rw [hoff] at hon
        cases hon
      · simp [choose, hempty]
  rw [hcanned]
  obtain ⟨hspeaks, hshort⟩ := hlines _ hpick
  exact message_accepted (by simpa using hspeaks) hshort

end Posted

end Chatter

end Betsphere
