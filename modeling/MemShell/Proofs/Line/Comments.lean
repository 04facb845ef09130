import Mathlib.Data.List.TakeWhile
import MemShell.Line.Comment
import MemShell.Proofs.Line.Stands
set_option autoImplicit false

/-!
# Comments before and during reading

A line whose comment and outer blanks were taken away is read like the line itself, unless the cut
falls behind a backslash or inside a quote. Neither happens where no backslash escapes a quote or a
blank.
-/
namespace MemShell.Token
open Text Line

def quoteAfter (quote : Option Char) (c : Char) : Option Char :=
  match quote with
  | some q => if c = q then none else some q
  | none => if isQuote c then some c else none

theorem isBlank_of_isQuote {c : Char} (h : isQuote c = true) : isBlank c = false := by
  simp only [isQuote, Bool.or_eq_true, decide_eq_true_eq] at h
  rcases h with rfl | rfl <;> rfl

theorem ne_of_isBlank_of_isQuote {c q : Char} (hc : isBlank c = true) (hq : isQuote q = true) :
    c ≠ q := by
  rintro rfl
  rw [isBlank_of_isQuote hq] at hc
  cases hc

theorem beforeComment_cons (quote : Option Char) (fresh : Bool) (c : Char) (cs : List Char) :
    beforeComment quote fresh (c :: cs) =
      if quote = none ∧ c = '#' ∧ fresh = true then []
      else c :: beforeComment (quoteAfter quote c) (isBlank c) cs := by
  cases quote with
  | some q => simp [beforeComment, quoteAfter]
  | none =>
    by_cases hq : isQuote c = true
    · have hblank := isBlank_of_isQuote hq
      simp only [isQuote, Bool.or_eq_true, decide_eq_true_eq] at hq
      rcases hq with rfl | rfl <;> simp [beforeComment, quoteAfter, isQuote, hblank]
    · have hne : ¬(c = '\'' ∨ c = '"') := by simpa [isQuote] using hq
      simp [beforeComment, quoteAfter, hq, hne]

/-- What a comment leaves out opens with `#`, at the start of the line or behind a blank. -/
theorem beforeComment_cut (quote : Option Char) (fresh : Bool) (cs : List Char) :
    ∃ cut, cs = beforeComment quote fresh cs ++ cut ∧
      (cut = [] ∨ ∃ more, cut = '#' :: more ∧
        if beforeComment quote fresh cs = [] then fresh = true
        else ∃ c, (beforeComment quote fresh cs).getLast? = some c ∧ isBlank c = true) := by
  induction cs generalizing quote fresh with
  | nil => exact ⟨[], rfl, .inl rfl⟩
  | cons c cs ih =>
    rw [beforeComment_cons]
    split
    · next h => exact ⟨c :: cs, rfl, .inr ⟨cs, by rw [h.2.1], h.2.2⟩⟩
    · obtain ⟨cut, hcs, hcut⟩ := ih (quoteAfter quote c) (isBlank c)
      refine ⟨cut, by rw [List.cons_append, ← hcs], ?_⟩
      refine hcut.imp id fun ⟨more, hmore, hbehind⟩ => ⟨more, hmore, ?_⟩
      rw [if_neg (List.cons_ne_nil _ _)]
      split at hbehind
      · next hnil => exact ⟨c, by rw [hnil]; rfl, hbehind⟩
      · next hne =>
        obtain ⟨x, hx, hblank⟩ := hbehind
        exact ⟨x, by rw [List.getLast?_cons, hx]; rfl, hblank⟩

theorem trimStart_split (cs : List Char) :
    ∃ blanks, cs = blanks ++ trimStart cs ∧ (∀ c ∈ blanks, isBlank c = true) ∧
      ∀ c, (trimStart cs).head? = some c → isBlank c = false := by
  refine ⟨cs.takeWhile isBlank, (List.takeWhile_append_dropWhile ..).symm, ?_, ?_⟩
  · intro c hc
    exact List.mem_takeWhile_imp hc
  · intro c hc
    have hhead := List.head?_dropWhile_not isBlank cs
    rw [trimStart] at hc
    rw [hc] at hhead
    simpa using hhead

theorem trimStart_append {blanks cs : List Char} (hblanks : ∀ c ∈ blanks, isBlank c = true)
    (hhead : ∀ c, cs.head? = some c → isBlank c = false) : trimStart (blanks ++ cs) = cs := by
  rw [trimStart, List.dropWhile_append_of_pos hblanks]
  cases cs with
  | nil => rfl
  | cons c cs =>
    have hc := hhead c rfl
    rw [List.dropWhile_cons_of_neg (by simp [hc])]

theorem trimEnd_split (cs : List Char) :
    ∃ blanks, cs = trimEnd cs ++ blanks ∧ (∀ c ∈ blanks, isBlank c = true) ∧
      ∀ c, (trimEnd cs).getLast? = some c → isBlank c = false := by
  refine ⟨(cs.reverse.takeWhile isBlank).reverse, ?_, ?_, ?_⟩
  · rw [trimEnd, ← List.reverse_append, List.takeWhile_append_dropWhile, List.reverse_reverse]
  · intro c hc
    exact List.mem_takeWhile_imp (List.mem_reverse.mp hc)
  · intro c hc
    rw [trimEnd, List.getLast?_reverse] at hc
    have hhead := List.head?_dropWhile_not isBlank cs.reverse
    rw [hc] at hhead
    simpa using hhead

/-- A line is its stripped text between blanks, with a comment at the end that opens behind a blank
or is all there is. -/
theorem stripComment_split (line : String) :
    ∃ before after comment, line.toList = beforeComment none true line.toList ++ comment ∧
      beforeComment none true line.toList = before ++ ((stripComment line).toList ++ after) ∧
      (∀ c ∈ before, isBlank c = true) ∧ (∀ c ∈ after, isBlank c = true) ∧
      (∀ c, (stripComment line).toList.head? = some c → isBlank c = false) ∧
      (comment = [] ∨ ∃ more, comment = '#' :: more ∧
        (after = [] → (stripComment line).toList = [])) := by
  obtain ⟨cut, hcut, hcomment⟩ := beforeComment_cut none true line.toList
  have htext : (stripComment line).toList = trim (beforeComment none true line.toList) := by
    simp [stripComment]
  rw [htext]
  generalize beforeComment none true line.toList = kept at hcut hcomment ⊢
  obtain ⟨before, hbefore, hblanks, hhead⟩ := trimStart_split kept
  obtain ⟨after, hafter, hblanks', hlast⟩ := trimEnd_split (trimStart kept)
  have hkept : kept = before ++ (trim kept ++ after) := by rw [trim, ← hafter, ← hbefore]
  refine ⟨before, after, cut, hcut, hkept, hblanks, hblanks', ?_, ?_⟩
  · intro c hc
    refine hhead c ?_
    rw [hafter, List.head?_append, ← trim, hc]
    rfl
  · refine hcomment.imp id fun ⟨more, hmore, hbehind⟩ => ⟨more, hmore, fun hnil => ?_⟩
    subst hnil
    by_contra hne
    obtain ⟨last, hgetLast⟩ : ∃ c, (trim kept).getLast? = some c :=
      ⟨_, List.getLast?_eq_some_getLast hne⟩
    have hkeptlast : kept.getLast? = some last := by
      rw [hkept, List.append_nil, List.getLast?_append, hgetLast]
      rfl
    have hkeptne : kept ≠ [] := by
      rintro rfl
      simp at hkeptlast
    rw [if_neg hkeptne, hkeptlast] at hbehind
    obtain ⟨x, hx, hblank⟩ := hbehind
    rw [← Option.some.inj hx, hlast _ hgetLast] at hblank
    exact Bool.false_ne_true hblank

namespace Stand
variable {s : Stand} {d : Draft} {c : Char} {cs after comment : List Char}

def quote? : Stand → Option Char
  | quoted q _ => some q
  | quotedEscape _ => some '"'
  | _ => none

def isEscape : Stand → Bool
  | escape _ => true
  | _ => false

theorem step_outside_blank (word : Option Draft) (fresh : Bool) (h : isBlank c = true) :
    (outside word fresh).step c = (Draft.close word, start) := by
  simp [step, stepOutside, h, start]

theorem isDouble_blank (o : Char) (h : isBlank c = true) : isDouble o c = false := by
  by_contra hdouble
  simp only [isDouble, Bool.not_eq_false, Bool.and_eq_true, Bool.or_eq_true,
    decide_eq_true_eq] at hdouble
  obtain ⟨rfl, (rfl | rfl) | rfl⟩ := hdouble <;> cases h

/-- A blank outside quotes and comments ends a token as the end of the text does, unless a backslash
takes it. -/
theorem step_blank {ts : List Token} (hfinish : s.finish = some ts) (hcomment : s ≠ .comment)
    (hescape : s.isEscape = false) (hc : isBlank c = true) : s.step c = (ts, start) := by
  cases s with
  | outside word fresh =>
    obtain rfl : Draft.close word = ts := Option.some.inj hfinish
    exact step_outside_blank word fresh hc
  | operator o =>
    obtain rfl : [Token.operator o.toString] = ts := Option.some.inj hfinish
    simp only [step, isDouble_blank o hc, stepOutside, hc]
    rfl
  | escape d => cases hescape
  | quoted q d => cases hfinish
  | quotedEscape d => cases hfinish
  | comment => exact absurd rfl hcomment

theorem run_blanks (h : ∀ c ∈ cs, isBlank c = true) : start.run cs = ([], start) := by
  induction cs with
  | nil => rfl
  | cons c cs ih =>
    have hstep : start.step c = ([], start) := step_outside_blank none true (h c (by simp))
    rw [run, hstep, ih fun x hx => h x (by simp [hx])]
    rfl

theorem read_blanks (h : ∀ c ∈ cs, isBlank c = true) (more : List Char) :
    start.read (cs ++ more) = start.read more := by
  rw [read_append, run_blanks h]
  simp

/-- Blanks and a comment behind them mean nothing where a token may start. -/
theorem read_start_comment (hafter : ∀ c ∈ after, isBlank c = true)
    (hcomment : comment = [] ∨ ∃ more, comment = '#' :: more) :
    start.read (after ++ comment) = some [] := by
  rw [read_blanks hafter]
  obtain rfl | ⟨more, rfl⟩ := hcomment
  · rfl
  · have hstep : start.step '#' = ([], Stand.comment) := rfl
    rw [read_of_silent hstep, read_comment]

theorem exists_finish (h : s.quote? = none) : ∃ ts, s.finish = some ts := by
  cases s with
  | quoted q d => cases h
  | quotedEscape d => cases h
  | _ => exact ⟨_, rfl⟩

theorem exists_escape (h : s.isEscape = true) : ∃ d, s = escape d := by
  cases s with
  | escape d => exact ⟨d, rfl⟩
  | _ => cases h

theorem read_blank_cons {ts : List Token} (hfinish : s.finish = some ts)
    (hescape : s.isEscape = false) (hc : isBlank c = true) (hread : start.read cs = some []) :
    s.read (c :: cs) = some ts := by
  by_cases hcomment : s = .comment
  · subst hcomment
    obtain rfl : [] = ts := Option.some.inj hfinish
    exact read_comment (c :: cs)
  · rw [read_cons, step_blank hfinish hcomment hescape hc, hread]
    simp

/-- A character behind a backslash is never lost. -/
theorem read_escape_ne (d : Draft) (c : Char) (cs : List Char) :
    (escape d).read (c :: cs) ≠ (escape d).finish := by
  intro h
  have hstep : (escape d).step c =
      ([], outside (some (Draft.push (some (Draft.quote (some d))) c)) false) := rfl
  rw [read_of_silent hstep] at h
  obtain ⟨t, us, hts, hle⟩ := text_of_read rfl h
  obtain rfl : word (String.ofList d.text) d.quoted = t := (List.cons.inj hts).1
  have hlength := hle.length_le
  simp only [Draft.push, Draft.quote, Option.getD_some, List.length_append, List.length_singleton,
    word, String.toList_ofList] at hlength
  omega

/-- Blanks and a comment can be cut off outside quotes, but not behind a backslash. -/
theorem read_eq_finish_iff (hquote : s.quote? = none) (hafter : ∀ c ∈ after, isBlank c = true)
    (hcomment : comment = [] ∨ ∃ more, comment = '#' :: more ∧ (after = [] → s = start)) :
    s.read (after ++ comment) = s.finish ↔ (s.isEscape = true → after ++ comment = []) := by
  have hopens : comment = [] ∨ ∃ more, comment = '#' :: more :=
    hcomment.imp id fun ⟨more, hmore, _⟩ => ⟨more, hmore⟩
  cases after with
  | nil =>
    obtain rfl | ⟨more, rfl, hstart⟩ := hcomment
    · simp [read]
    · rw [hstart rfl, read_start_comment hafter hopens]
      simp [start, isEscape, finish, Draft.close]
  | cons c after =>
    have hc := hafter c (by simp)
    have hrest : start.read (after ++ comment) = some [] :=
      read_start_comment (fun x hx => hafter x (by simp [hx])) hopens
    cases hescape : s.isEscape with
    | true =>
      obtain ⟨d, rfl⟩ := exists_escape hescape
      have hne := read_escape_ne d c (after ++ comment)
      simp [hne]
    | false =>
      obtain ⟨ts, hfinish⟩ := exists_finish hquote
      rw [List.cons_append, read_blank_cons hfinish hescape hc hrest, hfinish]
      simp

theorem finish_of_quote? {q : Char} (h : s.quote? = some q) : s.finish = none := by
  cases s <;> first | rfl | cases h

theorem isEscape_of_quote? {q : Char} (h : s.quote? = some q) : s.isEscape = false := by
  cases s <;> first | rfl | cases h

theorem read_eq_run (s : Stand) (xs : List Char) :
    s.read xs = (s.run xs).2.finish.map ((s.run xs).1 ++ ·) := by
  have hread := read_append s xs []
  rwa [List.append_nil] at hread

theorem read_append_inj (s : Stand) (xs ys zs : List Char) :
    s.read (xs ++ ys) = s.read (xs ++ zs) ↔ (s.run xs).2.read ys = (s.run xs).2.read zs := by
  have hinj : Function.Injective (Option.map ((s.run xs).1 ++ ·)) :=
    Option.map_injective fun _ _ => List.append_cancel_left
  rw [read_append, read_append, hinj.eq_iff]

/-- A rest can be cut off where it is read as the end of the text. -/
theorem read_append_eq_read_iff (s : Stand) (xs ys : List Char) :
    s.read (xs ++ ys) = s.read xs ↔ (s.run xs).2.read ys = (s.run xs).2.finish := by
  have hcut := read_append_inj s xs ys []
  rwa [List.append_nil] at hcut

end Stand

/-- The comment and the outer blanks of a line can be taken away if and only if this leaves no
backslash without the character it escapes and no quote open that is closed later. -/
theorem toOption_ofLine_stripComment (line : String) :
    (ofLine (stripComment line)).toOption = (ofLine line).toOption ↔
      (((Stand.start.run (stripComment line).toList).2.isEscape = true →
          trimStart line.toList = (stripComment line).toList) ∧
        ((Stand.start.run (stripComment line).toList).2.quote?.isSome = true →
          (ofLine line).toOption = none)) := by
  obtain ⟨before, after, comment, hcut, hkept, hbefore, hafter, hhead, hcomment⟩ :=
    stripComment_split line
  have hline : line.toList = before ++ ((stripComment line).toList ++ (after ++ comment)) := by
    rw [hcut, hkept]
    simp
  rw [toOption_ofLine, toOption_ofLine, hline, Stand.read_blanks hbefore]
  clear hcut hkept hline
  generalize (stripComment line).toList = kept at hhead hcomment ⊢
  rw [eq_comm, Stand.read_append_eq_read_iff]
  cases hquote : (Stand.start.run kept).2.quote? with
  | some q =>
    simp [Stand.read_append, Stand.isEscape_of_quote? hquote, Stand.finish_of_quote? hquote]
  | none =>
    have hstart : comment = [] ∨ ∃ more, comment = '#' :: more ∧
        (after = [] → (Stand.start.run kept).2 = Stand.start) :=
      hcomment.imp id fun ⟨more, hmore, hnil⟩ => ⟨more, hmore, fun h => by rw [hnil h]; rfl⟩
    rw [Stand.read_eq_finish_iff hquote hafter hstart]
    have htrim (hescape : (Stand.start.run kept).2.isEscape = true) :
        trimStart (before ++ (kept ++ (after ++ comment))) = kept ++ (after ++ comment) := by
      refine trimStart_append hbefore fun c hc => ?_
      cases kept with
      | nil => cases hescape
      | cons x kept => exact hhead c hc
    constructor
    · intro h
      refine ⟨fun hescape => ?_, fun hsome => by cases hsome⟩
      rw [htrim hescape, h hescape, List.append_nil]
    · intro ⟨h, _⟩ hescape
      have := h hescape
      rwa [htrim hescape, List.append_right_eq_self] at this

-- The search for the comment takes the escaped quote for the closing one.
example :
    (ofLine "echo \"a\\\" # b\"").toOption = some [word "echo", word "a\" # b" true] ∧
      (ofLine (stripComment "echo \"a\\\" # b\"")).toOption = none := by
  decide +kernel

namespace Stand

/-- A backslash outside quotes takes no blank and no quote, one in double quotes no double quote. -/
def allows : Stand → Char → Bool
  | escape _, c => !isBlank c && !isQuote c
  | quotedEscape _, c => c ≠ '"'
  | _, _ => true

def allowsAll : Stand → List Char → Bool
  | _, [] => true
  | s, c :: cs => s.allows c && (s.step c).2.allowsAll cs

def fresh : Stand → Bool
  | outside word fresh => word.isNone && fresh
  | _ => false

/-- The reading of a line and the search for its comment are at the same place. -/
structure InStep (s : Stand) (quote : Option Char) (fresh : Bool) : Prop where
  goesOn : s ≠ comment
  sameQuote : s.quote? = quote
  isQuote_of_quote : ∀ q, quote = some q → isQuote q = true
  sameFresh : quote = none → s.fresh = fresh

variable {s : Stand} {quote : Option Char} {fresh : Bool} {c : Char} {xs ys : List Char}

theorem allowsAll_append :
    s.allowsAll (xs ++ ys) = (s.allowsAll xs && (s.run xs).2.allowsAll ys) := by
  induction xs generalizing s with
  | nil => simp [allowsAll, run]
  | cons c xs ih => simp [allowsAll, run, ih, Bool.and_assoc]

theorem run_append_snd : (s.run (xs ++ ys)).2 = ((s.run xs).2.run ys).2 := by
  induction xs generalizing s with
  | nil => rfl
  | cons c xs ih => exact ih

theorem inStep_start : InStep start none true :=
  ⟨by simp [start], rfl, by simp, fun _ => rfl⟩

theorem isBlank_of_isOperatorChar (h : isOperatorChar c = true) : isBlank c = false := by
  simp only [isOperatorChar, Bool.or_eq_true, decide_eq_true_eq] at h
  rcases h with (((rfl | rfl) | rfl) | rfl) | rfl <;> rfl

theorem isOperatorChar_of_isDouble {o : Char} (h : isDouble o c = true) :
    isOperatorChar c = true := by
  simp only [isDouble, Bool.and_eq_true, Bool.or_eq_true, decide_eq_true_eq] at h
  obtain ⟨rfl, (rfl | rfl) | rfl⟩ := h <;> rfl

theorem isQuote_of_isOperatorChar (h : isOperatorChar c = true) : isQuote c = false := by
  simp only [isOperatorChar, Bool.or_eq_true, decide_eq_true_eq] at h
  rcases h with (((rfl | rfl) | rfl) | rfl) | rfl <;> rfl

theorem inStep_stepOutside (word : Option Draft) (fresh : Bool)
    (h : ¬(c = '#' ∧ (outside word fresh).fresh = true)) :
    InStep (stepOutside word fresh c).2 (quoteAfter none c) (isBlank c) := by
  have hcomment : (c = '#' && word.isNone && fresh) = false := by
    simpa [Stand.fresh, and_assoc] using h
  rw [stepOutside, hcomment, quoteAfter]
  by_cases hblank : isBlank c = true
  · have hquote : isQuote c = false := by
      by_contra hq
      rw [isBlank_of_isQuote (by simpa using hq)] at hblank
      cases hblank
    rw [hblank, hquote]
    exact ⟨by simp, rfl, by simp, fun _ => rfl⟩
  rw [Bool.not_eq_true] at hblank
  rw [hblank]
  by_cases hquote : isQuote c = true
  · rw [hquote]
    exact ⟨by simp, rfl, by simp [hquote], by simp⟩
  rw [Bool.not_eq_true] at hquote
  rw [hquote]
  by_cases hslash : c = '\\'
  · subst hslash
    exact ⟨by simp, rfl, by simp, fun _ => rfl⟩
  by_cases hoperator : isOperatorChar c = true
  · rw [hoperator]
    simp only [hslash]
    exact ⟨by simp, rfl, by simp, fun _ => rfl⟩
  · rw [Bool.not_eq_true] at hoperator
    rw [hoperator]
    simp only [hslash]
    exact ⟨by simp, rfl, by simp, fun _ => rfl⟩

theorem inStep_step (h : InStep s quote fresh) (hallows : s.allows c = true)
    (hcomment : ¬(quote = none ∧ c = '#' ∧ fresh = true)) :
    InStep (s.step c).2 (quoteAfter quote c) (isBlank c) := by
  obtain ⟨hgoesOn, rfl, hisQuote, hfresh⟩ := h
  cases s with
  | outside word f =>
    refine inStep_stepOutside word f fun ⟨hc, hf⟩ => hcomment ⟨rfl, hc, ?_⟩
    rw [← hf, hfresh rfl]
  | escape d =>
    obtain ⟨hblank, hquote⟩ : isBlank c = false ∧ isQuote c = false := by
      simpa [allows] using hallows
    rw [show (escape d).quote? = none from rfl, quoteAfter, hquote, hblank]
    exact ⟨by simp [step], rfl, by simp, fun _ => by simp [step, Stand.fresh]⟩
  | quoted q d =>
    have hq := hisQuote q rfl
    by_cases hc : c = q
    · subst hc
      simp only [quote?, quoteAfter, step, if_true, isBlank_of_isQuote hq]
      exact ⟨by simp, rfl, by simp, fun _ => rfl⟩
    by_cases hslash : c = '\\' ∧ q = '"'
    · obtain ⟨rfl, rfl⟩ := hslash
      exact ⟨by simp [step], rfl, hisQuote, by simp [quote?, quoteAfter]⟩
    · have hstep : (quoted q d).step c = ([], quoted q (Draft.push (some d) c)) := by
        simp [step, hc, hslash]
      rw [hstep]
      simp only [quote?, quoteAfter, if_neg hc]
      exact ⟨by simp, rfl, hisQuote, by simp⟩
  | quotedEscape d =>
    have hc : c ≠ '"' := by simpa [allows] using hallows
    simp only [quote?, quoteAfter, if_neg hc]
    exact ⟨by simp [step], rfl, hisQuote, by simp⟩
  | operator o =>
    have hnext := inStep_stepOutside (c := c) none false (by simp [Stand.fresh])
    cases hdouble : isDouble o c with
    | true =>
      have hop := isOperatorChar_of_isDouble hdouble
      rw [show (operator o).quote? = none from rfl, quoteAfter, isQuote_of_isOperatorChar hop,
        isBlank_of_isOperatorChar hop]
      simp only [step, hdouble]
      exact ⟨by simp, rfl, by simp, fun _ => rfl⟩
    | false =>
      simp only [step, hdouble]
      exact hnext
  | comment => exact absurd rfl hgoesOn

/-- Where the search for the comment stops, no quote is open for the reading either. -/
theorem quote?_run_beforeComment (h : InStep s quote fresh) (hallows : s.allowsAll xs = true)
    (hcut : beforeComment quote fresh xs ≠ xs) :
    (s.run (beforeComment quote fresh xs)).2.quote? = none := by
  induction xs generalizing s quote fresh with
  | nil => exact absurd rfl hcut
  | cons c xs ih =>
    rw [beforeComment_cons] at hcut ⊢
    split at hcut
    · next hcomment =>
      rw [if_pos hcomment]
      exact h.sameQuote.trans hcomment.1
    · next hcomment =>
      rw [if_neg hcomment]
      simp only [allowsAll, Bool.and_eq_true] at hallows
      exact ih (inStep_step h hallows.1 hcomment) hallows.2 fun heq => hcut (by rw [heq])

theorem isQuote_of_quote?_step (h : ∀ q, s.quote? = some q → isQuote q = true) (c : Char) :
    ∀ q, (s.step c).2.quote? = some q → isQuote q = true := by
  have outside (word : Option Draft) (fresh : Bool) (q : Char)
      (hq : (stepOutside word fresh c).2.quote? = some q) : isQuote q = true := by
    rw [stepOutside] at hq
    split at hq
    · cases hq
    split at hq
    · cases hq
    split at hq
    · next hquote =>
      obtain rfl : c = q := Option.some.inj hq
      exact hquote
    split at hq
    · cases hq
    split at hq <;> cases hq
  intro q hq
  cases s with
  | outside word fresh => exact outside word fresh q hq
  | escape d => cases hq
  | quoted q' d =>
    simp only [step] at hq
    split at hq
    · cases hq
    split at hq
    · obtain rfl : '"' = q := Option.some.inj hq
      rfl
    · exact h q hq
  | quotedEscape d => exact h q hq
  | operator o =>
    simp only [step] at hq
    split at hq
    · cases hq
    · exact outside none false q hq
  | comment => cases hq

theorem isQuote_of_quote?_run (h : ∀ q, s.quote? = some q → isQuote q = true) (xs : List Char) :
    ∀ q, (s.run xs).2.quote? = some q → isQuote q = true := by
  induction xs generalizing s with
  | nil => exact h
  | cons c xs ih => exact ih (isQuote_of_quote?_step h c)

theorem quote?_run_blanks {q : Char} (hs : s.quote? = some q) (hq : isQuote q = true)
    (h : ∀ c ∈ xs, isBlank c = true) : (s.run xs).2.quote? = some q := by
  induction xs generalizing s with
  | nil => exact hs
  | cons c xs ih =>
    refine ih ?_ fun x hx => h x (by simp [hx])
    have hc : c ≠ q := ne_of_isBlank_of_isQuote (h c (by simp)) hq
    cases s with
    | quoted q' d =>
      obtain rfl : q' = q := Option.some.inj hs
      simp only [step, if_neg hc]
      split
      · next hslash => rw [quote?, (by simpa using hslash : c = '\\' ∧ q' = '"').2]
      · rfl
    | quotedEscape d => exact hs
    | outside word fresh => cases hs
    | escape d => cases hs
    | operator o => cases hs
    | comment => cases hs

theorem read_eq_none_of_quote? {q : Char} (h : (s.run xs).2.quote? = some q) :
    s.read xs = none := by
  rw [read_eq_run, finish_of_quote? h]
  rfl

end Stand

def HasPlainEscapes (line : String) : Prop := Stand.start.allowsAll line.toList = true

instance (line : String) : Decidable (HasPlainEscapes line) :=
  inferInstanceAs (Decidable (_ = true))

/-- A line with plain escapes is read the same with its comment and outer blanks and without. -/
theorem toOption_ofLine_of_hasPlainEscapes (line : String) (h : HasPlainEscapes line) :
    (ofLine (stripComment line)).toOption = (ofLine line).toOption := by
  obtain ⟨before, after, comment, hcut, hkept, hbefore, hafter, hhead, hcomment⟩ :=
    stripComment_split line
  refine (toOption_ofLine_stripComment line).mpr ⟨fun hescape => ?_, fun hquoted => ?_⟩
  · -- A backslash at the end of the text would have taken the blank that was cut off behind it.
    have hnothing : after ++ comment = [] := by
      cases after with
      | nil =>
        obtain rfl | ⟨more, -, hnil⟩ := hcomment
        · rfl
        · rw [hnil rfl] at hescape
          cases hescape
      | cons c after =>
        have hc := hafter c (by simp)
        rw [HasPlainEscapes, hcut, hkept] at h
        simp only [List.append_assoc, List.cons_append, Stand.allowsAll_append,
          Stand.run_blanks hbefore, Stand.allowsAll, Bool.and_eq_true] at h
        generalize (Stand.start.run (stripComment line).toList).2 = s at hescape h
        cases s with
        | escape d => simp [Stand.allows, hc] at h
        | _ => cases hescape
    have hline : line.toList = before ++ (stripComment line).toList := by
      rw [hcut, hkept, List.append_assoc, List.append_assoc, hnothing, List.append_nil]
    rw [hline, trimStart_append hbefore hhead]
  · obtain ⟨q, hq⟩ := Option.isSome_iff_exists.mp hquoted
    have hisQuote : isQuote q = true :=
      Stand.isQuote_of_quote?_run (s := Stand.start) (fun _ h => nomatch h) _ q hq
    have hopen : (Stand.start.run (beforeComment none true line.toList)).2.quote? = some q := by
      rw [hkept, Stand.run_append_snd, Stand.run_blanks hbefore, Stand.run_append_snd]
      exact Stand.quote?_run_blanks hq hisQuote hafter
    have hwhole : beforeComment none true line.toList = line.toList := by
      by_contra hne
      rw [Stand.quote?_run_beforeComment Stand.inStep_start h hne] at hopen
      cases hopen
    rw [hwhole] at hopen
    rw [toOption_ofLine]
    exact Stand.read_eq_none_of_quote? hopen

theorem toOption_ofLine_of_hasPlainEscapes_mixed :
    HasPlainEscapes " a\\;'#b' \"c # \\\\\";d#e\\#f  # it's \\'\"  " ∧
      (ofLine (stripComment " a\\;'#b' \"c # \\\\\";d#e\\#f  # it's \\'\"  ")).toOption =
        (ofLine " a\\;'#b' \"c # \\\\\";d#e\\#f  # it's \\'\"  ").toOption :=
  ⟨by decide, toOption_ofLine_of_hasPlainEscapes _ (by decide)⟩

end MemShell.Token
