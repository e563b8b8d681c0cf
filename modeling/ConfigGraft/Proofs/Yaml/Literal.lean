import ConfigGraft.Proofs.Yaml.Character

/-!
# Literal blocks are read as they were written

A text with line feeds in it is written as a block of lines below a header. The reader takes the
lines apart into the breaks before them, their text and the break at their end, and joins them
again; only the breaks behind the last line are treated as the header says.

So a text and what is read are compared in two steps. `Found` says that lines, as they come from the
reader, are the lines of a text. And the header says what the end of the text needs, which is
`Suits`.

## Main results

* `Block.readLines?_literalText` — the reader finds the lines of what was written;
* `Block.read?_literal` — a literal block is read back.
-/

namespace ConfigGraft.Yaml

open Style

namespace Block

/-! ### Lines of a text -/

/-- The text that a line was read from, without its indentation. -/
def Line.source (line : Line) : List Char := line.before ++ line.text ++ line.ending

/-- A line that was read to its end: its text does not end in a break, and there is one behind
it. -/
structure Line.Whole (line : Line) : Prop where
  text : ∃ front c, line.text = front ++ [c] ∧ endsLine c = false
  ending : ∃ c, line.ending = [c] ∧ endsLine c = true

/-- What the reader finds in a text: whole lines, and breaks behind the last one. -/
structure Found (cs : List Char) (lines : List Line) (trailing : List Char) : Prop where
  source : lines.flatMap Line.source ++ trailing = cs
  whole : ∀ line ∈ lines, line.Whole
  breaks : ∀ c ∈ trailing, endsLine c = true

/-- What the reader holds back of a text: breaks at the start of a line, and on a line the text
behind them, which is held backwards. -/
inductive Held : Bool → List Char → Mode → List Char → Prop
  | start {before : List Char} (deepest : Nat) :
      (∀ c ∈ before, endsLine c = true) → Held true before (.indentation deepest) before
  | inside {before backwards : List Char} {c : Char} :
      endsLine c = false →
      Held false before (.text (c :: backwards)) (before ++ (c :: backwards).reverse)

/-- Whether a line begins behind a text; `broken` says so of its start. -/
def breaksAfter : Bool → List Char → Bool
  | broken, [] => broken
  | _, c :: cs => breaksAfter (endsLine c) cs

/-- The last character decides whether a line begins behind it. -/
@[simp] theorem breaksAfter_concat (broken : Bool) (cs : List Char) (c : Char) :
    breaksAfter broken (cs ++ [c]) = endsLine c := by
  induction cs generalizing broken with
  | nil => rfl
  | cons a cs ih => exact ih _

variable {floor width line column deepest : Nat} {before rest : List Char}

/-- Spaces before the indentation is reached are passed over. -/
theorem readLines?_spaces {indent? : Option Nat} {n : Nat}
    (h : ∀ i, indent? = some i → column + n ≤ i) :
    readLines? floor (spaces n ++ rest) line column indent? before (.indentation deepest) =
      readLines? floor rest line (column + n) indent? before (.indentation deepest) := by
  induction n generalizing column with
  | zero => rfl
  | succ n ih =>
      have hspaces : spaces (n + 1) ++ rest = ' ' :: (spaces n ++ rest) := rfl
      have hmore : indent?.all (column < ·) = true := by
        cases indent? with
        | none => rfl
        | some i =>
            have hi : column + (n + 1) ≤ i := h i rfl
            simp only [Option.all_some, decide_eq_true_eq]
            omega
      have hlater : ∀ i, indent? = some i → column + 1 + n ≤ i := fun i hi => by
        have hle := h i hi
        omega
      have hcolumn : column + 1 + n = column + (n + 1) := by omega
      rw [hspaces, readLines?, if_pos ⟨rfl, hmore⟩, ih hlater, hcolumn]

/-- A break at the start of a line is held back. -/
theorem readLines?_break {c : Char} (hblank : isBlank c = false) (hbreak : isBreak c = true)
    {indent? : Option Nat} :
    readLines? floor (c :: rest) line column indent? before (.indentation deepest) =
      readLines? floor rest (line + 1) 0 indent? (before ++ [c])
        (.indentation (max deepest column)) := by
  obtain ⟨hspace, htab⟩ := ne_of_isBlank hblank
  rw [readLines?, if_neg (fun h => hspace h.1), if_neg (fun h => htab h.1), if_pos hbreak]

/-- At the indentation the text of a line begins. -/
theorem readLines?_indented {c : Char} (hbreak : isBreak c = false) :
    readLines? floor (spaces width ++ c :: rest) line 0 (some width) before
        (.indentation deepest) =
      readLines? floor rest line (width + 1) (some width) before (.text [c]) := by
  have hspaces : ∀ i, some width = some i → 0 + width ≤ i := by
    rintro i ⟨⟩
    omega
  have hfull : ¬ Option.all (fun i => decide (width < i)) (some width) = true := by simp
  rw [readLines?_spaces hspaces, Nat.zero_add, readLines?, if_neg (fun h => hfull h.2),
    if_neg (fun h => hfull h.2), if_neg (by simp [hbreak]), Option.getD_some, if_pos rfl]

/-- As long as the indentation is open, the first line decides about it. -/
theorem readLines?_open {c : Char} (hblank : isBlank c = false) (hbreak : isBreak c = false)
    (hfloor : floor ≤ width) :
    readLines? floor (spaces width ++ c :: rest) line 0 none before (.indentation 0) =
      readLines? floor rest line (width + 1) (some width) before (.text [c]) := by
  have hwidth : width = Option.getD none (max (max 0 width) floor) := by
    rw [Option.getD_none]
    omega
  obtain ⟨hspace, htab⟩ := ne_of_isBlank hblank
  rw [readLines?_spaces (fun i hi => by cases hi), Nat.zero_add, readLines?,
    if_neg (fun h => hspace h.1), if_neg (fun h => htab h.1), if_neg (by simp [hbreak]),
    if_pos hwidth]

/-- A block ends at a line that is not indented as far. The breaks before it are left over. -/
theorem readLines?_end {indent : Nat} {next : List Char} (hindent : indent < width)
    (hnext : Resumes next) :
    readLines? floor (spaces indent ++ next) line 0 (some width) before (.indentation deepest) =
      some ([], before, ⟨next, line, indent⟩) := by
  have hspaces : ∀ i, some width = some i → 0 + indent ≤ i := by
    rintro i ⟨⟩
    omega
  rw [readLines?_spaces hspaces, Nat.zero_add]
  cases next with
  | nil => rfl
  | cons c next =>
      obtain ⟨hblank, hbreak, -⟩ := hnext c rfl
      obtain ⟨hspace, htab⟩ := ne_of_isBlank hblank
      rw [readLines?, if_neg (fun h => hspace h.1), if_neg (fun h => htab h.1),
        if_neg (by simp [hbreak]), Option.getD_some, if_neg (Nat.ne_of_lt hindent)]

/-- **The reader finds the lines of what was written,** and stops at a line that is not indented as
far. -/
theorem readLines?_literalText {indent : Nat} {next : List Char} (hindent : indent < width)
    (hnext : Resumes next) {cs : List Char} (hprintable : ∀ c ∈ cs, isPrintable c = true)
    {broken : Bool} {front : List Char} {mode : Mode} (hheld : Held broken before mode front)
    (hend : breaksAfter broken cs = true) (hcolumn : broken = true → column = 0) :
    ∃ lines trailing line',
      readLines? floor (literalText width broken cs ++ (spaces indent ++ next)) line column
        (some width) before mode = some (lines, trailing, ⟨next, line', indent⟩) ∧
      Found (front ++ cs) lines trailing := by
  induction cs generalizing broken before front mode line column with
  | nil =>
      cases hheld with
      | inside => cases hend
      | start deepest hbreaks =>
          refine ⟨[], before, line, ?_, ⟨by simp, List.forall_mem_nil _, hbreaks⟩⟩
          obtain rfl := hcolumn rfl
          exact readLines?_end hindent hnext
  | cons c cs ih =>
      obtain ⟨hc, hcs⟩ := List.forall_mem_cons.1 hprintable
      rw [breaksAfter] at hend
      have happend : front ++ c :: cs = (front ++ [c]) ++ cs := by simp
      rw [literalText]
      cases hends : endsLine c with
      | true =>
          rw [hends] at hend
          have hbreak : isBreak c = true := by rw [isBreak_eq hc, hends]
          rw [if_pos rfl, List.cons_append]
          cases hheld with
          | start deepest hbreaks =>
              rw [readLines?_break (isBlank_of_endsLine hc hends) hbreak, happend]
              refine ih hcs (.start _ (List.forall_mem_append.2 ⟨hbreaks, ?_⟩)) hend (fun _ => rfl)
              exact List.forall_mem_singleton.2 hends
          | @inside before backwards b hb =>
              -- The line is complete.
              obtain ⟨lines, trailing, line', hread, hfound⟩ : ∃ lines trailing line',
                  readLines? floor (literalText width true cs ++ (spaces indent ++ next)) (line + 1)
                    0 (some width) [] (.indentation 0) =
                      some (lines, trailing, ⟨next, line', indent⟩) ∧
                  Found ([] ++ cs) lines trailing :=
                ih hcs (.start 0 (List.forall_mem_nil _)) hend (fun _ => rfl)
              refine ⟨⟨before, (b :: backwards).reverse, [c]⟩ :: lines, trailing, line', ?_, ?_, ?_,
                hfound.breaks⟩
              · rw [readLines?, if_pos hbreak, hread]
                rfl
              · simp [Line.source, hfound.source]
              · exact List.forall_mem_cons.2
                  ⟨⟨⟨_, _, List.reverse_cons, hb⟩, ⟨c, rfl, hends⟩⟩, hfound.whole⟩
      | false =>
          rw [hends] at hend
          have hbreak : isBreak c = false := by rw [isBreak_eq hc, hends]
          rw [if_neg Bool.false_ne_true, happend]
          cases hheld with
          | start deepest hbreaks =>
              obtain rfl := hcolumn rfl
              rw [if_pos rfl, List.append_assoc, List.cons_append, readLines?_indented hbreak]
              exact ih hcs (.inside hends) hend (fun h => by cases h)
          | @inside before backwards b hb =>
              have hheld : Held false before (.text (c :: b :: backwards))
                  (before ++ (b :: backwards).reverse ++ [c]) := by
                rw [List.append_assoc, ← List.reverse_cons]
                exact .inside hends
              rw [if_neg Bool.false_ne_true, List.nil_append, List.cons_append, readLines?,
                if_neg (by simp [hbreak])]
              exact ih hcs hheld hend (fun h => by cases h)

/-! ### Joining lines -/

/-- Without folding, all of the lines is kept. -/
theorem join_source (ending : List Char) (blank : Bool) (lines : List Line) :
    (join false ending blank lines).1 ++ (join false ending blank lines).2 =
      ending ++ lines.flatMap Line.source := by
  induction lines generalizing ending blank with
  | nil => simp [join]
  | cons line lines ih => simp [join, joint, Line.source, ih]

/-- Joined whole lines do not end in a break, and one break is left of them. -/
theorem join_whole {lines : List Line} (hne : lines ≠ []) (hwhole : ∀ line ∈ lines, line.Whole)
    (ending : List Char) (blank : Bool) :
    (∃ front c, (join false ending blank lines).1 = front ++ [c] ∧ endsLine c = false) ∧
      ∃ c, (join false ending blank lines).2 = [c] ∧ endsLine c = true := by
  induction lines generalizing ending blank with
  | nil => exact absurd rfl hne
  | cons line lines ih =>
      obtain ⟨hline, hlines⟩ := List.forall_mem_cons.1 hwhole
      by_cases hmore : lines = []
      · subst hmore
        obtain ⟨front, c, htext, hc⟩ := hline.text
        refine ⟨⟨ending ++ line.before ++ front, c, ?_, hc⟩, hline.ending⟩
        simp [join, joint, htext]
      · obtain ⟨⟨front, c, htext, hc⟩, hending⟩ := ih hmore hlines line.ending line.startsBlank
        refine ⟨⟨ending ++ line.before ++ line.text ++ front, c, ?_, hc⟩, hending⟩
        simp [join, joint, htext]

/-- The breaks at the end of a text are cut off in one way only. -/
theorem eq_of_cut {text text' breaks breaks' : List Char} (htext : breaksAfter false text = false)
    (htext' : breaksAfter false text' = false) (hbreaks : ∀ c ∈ breaks, endsLine c = true)
    (hbreaks' : ∀ c ∈ breaks', endsLine c = true) (h : text ++ breaks = text' ++ breaks') :
    text = text' ∧ breaks = breaks' := by
  have hdrop {text breaks : List Char} (htext : breaksAfter false text = false)
      (hbreaks : ∀ c ∈ breaks, endsLine c = true) :
      (text ++ breaks).reverse.dropWhile endsLine = text.reverse := by
    rw [List.reverse_append,
      List.dropWhile_append_of_pos fun c hc => hbreaks c (List.mem_reverse.1 hc)]
    rcases List.eq_nil_or_concat text with rfl | ⟨front, c, rfl⟩
    · rfl
    · rw [List.concat_eq_append, breaksAfter_concat] at htext
      simp [htext]
  have hreverse : text.reverse = text'.reverse := by
    rw [← hdrop htext hbreaks, ← hdrop htext' hbreaks', h]
  obtain rfl := List.reverse_inj.1 hreverse
  exact ⟨rfl, List.append_cancel_left h⟩

/-- Joining cuts the text into content that does not end in a break, and breaks behind it: the one
that ends the last line, and the trailing ones. -/
theorem Found.cut {cs trailing : List Char} {lines : List Line} (h : Found cs lines trailing) :
    ∃ text ending, join false [] false lines = (text, ending) ∧ text ++ (ending ++ trailing) = cs ∧
      breaksAfter false text = false ∧ (∀ c ∈ ending ++ trailing, endsLine c = true) ∧
      (text ≠ [] → ending ≠ []) := by
  have hsource :
      (join false [] false lines).1 ++ ((join false [] false lines).2 ++ trailing) = cs := by
    rw [← List.append_assoc, join_source, List.nil_append, h.source]
  refine ⟨_, _, rfl, hsource, ?_⟩
  by_cases hne : lines = []
  · subst hne
    exact ⟨rfl, h.breaks, fun h => absurd rfl h⟩
  · obtain ⟨⟨front, c, htext, hc⟩, d, hending, hd⟩ := join_whole hne h.whole [] false
    rw [htext, hending, breaksAfter_concat]
    exact ⟨hc, List.forall_mem_cons.2 ⟨hd, h.breaks⟩, fun _ => List.cons_ne_nil _ _⟩

/-! ### The header -/

/-- The sign that says what becomes of the breaks at the end. -/
def Chomp.sign : Chomp → List Char
  | .strip => ['-']
  | .clip => []
  | .keep => ['+']

/-- How a text ends with which the breaks at the end are treated in a way. -/
inductive Suits : Chomp → List Char → Prop
  | strip {front : List Char} {c : Char} : endsLine c = false → Suits .strip (front ++ [c])
  | clip {front : List Char} {c d : Char} :
      endsLine c = false → endsLine d = true → Suits .clip (front ++ [c, d])
  | keep {front : List Char} {c : Char} : endsLine c = true → Suits .keep (front ++ [c])

/-- Whether the indentation cannot be seen from the first line. -/
def beginsBlank (cs : List Char) : Bool := cs.head?.any fun c => c == ' ' || endsLine c

/-- What becomes of the breaks at the end of a text, so that they stay. -/
def chompOf (cs : List Char) : Chomp :=
  match cs.reverse with
  | [] => .strip
  | [c] => if endsLine c then .keep else .strip
  | c :: d :: _ => if !endsLine c then .strip else if endsLine d then .keep else .clip

/-- The sign that is written says how a text ends. -/
theorem suits_chompOf {cs : List Char} (hne : cs ≠ []) : Suits (chompOf cs) cs := by
  obtain ⟨front, c, rfl⟩ := (List.eq_nil_or_concat cs).resolve_left hne
  rw [List.concat_eq_append]
  cases hc : endsLine c with
  | false =>
      have hchomp : chompOf (front ++ [c]) = .strip := by
        rcases List.eq_nil_or_concat front with rfl | ⟨front, b, rfl⟩ <;> simp [chompOf, hc]
      exact hchomp ▸ .strip hc
  | true =>
      rcases List.eq_nil_or_concat front with rfl | ⟨front, b, rfl⟩
      · have hchomp : chompOf ([] ++ [c]) = .keep := by simp [chompOf, hc]
        exact hchomp ▸ .keep hc
      · cases hb : endsLine b with
        | true =>
            have hchomp : chompOf (front.concat b ++ [c]) = .keep := by simp [chompOf, hb, hc]
            exact hchomp ▸ .keep hc
        | false =>
            have hchomp : chompOf (front ++ [b, c]) = .clip := by simp [chompOf, hb, hc]
            rw [List.concat_eq_append, List.append_assoc, List.singleton_append, hchomp]
            exact .clip hb hc

/-- A header says whether the text begins with a blank, and what becomes of the breaks. -/
theorem literalHeader_eq (cs : List Char) :
    literalHeader cs =
      '|' :: ((if beginsBlank cs then ['2'] else []) ++ Chomp.sign (chompOf cs)) := by
  have hends : (match cs.reverse with
      | [] => ['-']
      | [c] => if endsLine c then ['+'] else ['-']
      | c :: d :: _ => if !endsLine c then ['-'] else if endsLine d then ['+'] else []) =
      Chomp.sign (chompOf cs) := by
    unfold chompOf
    split <;> grind [Chomp.sign]
  rw [← hends]
  cases cs <;> rfl

/-- The signs of a header are read. -/
theorem readSigns?_sign (hint : Bool) (chomp : Chomp) (rest : List Char) :
    readSigns? ((if hint then ['2'] else []) ++ Chomp.sign chomp ++ '\n' :: rest) =
      some (⟨chomp, if hint then 2 else 0⟩, '\n' :: rest) := by
  cases hint <;> cases chomp <;> rfl

/-- **What suits the end of a text gives it back** from its lines, which are those of the text with
a line feed behind it where it did not end in a break. -/
theorem Found.content_eq {cs trailing : List Char} {chomp : Chomp} {lines : List Line}
    (h : Found (Value.endLine cs) lines trailing) (hsuits : Suits chomp cs) :
    content false chomp lines trailing = cs := by
  obtain ⟨text, ending, hjoin, hcut, htext, hbreaks, hending⟩ := h.cut
  rw [content, hjoin]
  cases hsuits with
  | @keep front c hc =>
      rw [Value.endLine, List.getLast?_concat, Option.any_some, if_pos hc] at hcut
      simpa using hcut
  | @strip front c hc =>
      rw [Value.endLine, List.getLast?_concat, Option.any_some, if_neg (by simp [hc])] at hcut
      obtain ⟨rfl, -⟩ := eq_of_cut htext (breaksAfter_concat _ _ _ ▸ hc) hbreaks
        (List.forall_mem_singleton.2 (by decide)) hcut
      simp
  | @clip front c d hc hd =>
      have happend : front ++ [c, d] = front ++ [c] ++ [d] := by simp
      rw [happend] at hcut ⊢
      rw [Value.endLine, List.getLast?_concat, Option.any_some, if_pos hd] at hcut
      obtain ⟨rfl, hone⟩ := eq_of_cut htext (breaksAfter_concat _ _ _ ▸ hc) hbreaks
        (List.forall_mem_singleton.2 hd) hcut
      -- One break is there, and it ends the last line.
      cases ending with
      | nil => exact absurd rfl (hending (by simp))
      | cons e ending =>
          obtain ⟨rfl, hnil⟩ := List.cons.inj hone
          obtain ⟨rfl, rfl⟩ := List.append_eq_nil_iff.1 hnil
          simp

/-! ### The end of the last line -/

/-- A line feed is added unless the last character ends the line. -/
theorem endLine_concat (front : List Char) (c : Char) :
    Value.endLine (front ++ [c]) = front ++ [c] ++ if endsLine c then [] else ['\n'] := by
  rw [Value.endLine, List.getLast?_concat, Option.any_some]
  cases endsLine c <;> simp

/-- A line begins behind a text whose line is ended. -/
theorem breaksAfter_endLine {cs : List Char} (hne : cs ≠ []) (broken : Bool) :
    breaksAfter broken (Value.endLine cs) = true := by
  obtain ⟨front, c, rfl⟩ := (List.eq_nil_or_concat cs).resolve_left hne
  rw [List.concat_eq_append, endLine_concat]
  cases hc : endsLine c with
  | true => rw [if_pos rfl, List.append_nil, breaksAfter_concat, hc]
  | false =>
      rw [if_neg Bool.false_ne_true, breaksAfter_concat]
      decide

/-- Ending the line adds nothing that is not printable. -/
theorem isPrintable_of_mem_endLine {cs : List Char} (h : ∀ c ∈ cs, isPrintable c = true) :
    ∀ c ∈ Value.endLine cs, isPrintable c = true := by
  rw [Value.endLine]
  split
  · exact h
  · exact List.forall_mem_append.2 ⟨h, List.forall_mem_singleton.2 (by decide)⟩

/-! ### Blocks -/

/-- What is behind is indented by how the front ends. -/
theorem literalText_append (broken : Bool) (cs more : List Char) :
    literalText width broken (cs ++ more) =
      literalText width broken cs ++ literalText width (breaksAfter broken cs) more := by
  induction cs generalizing broken with
  | nil => rfl
  | cons c cs ih =>
      rw [List.cons_append, literalText, literalText, breaksAfter]
      cases endsLine c with
      | true => rw [if_pos rfl, if_pos rfl, ih, List.cons_append]
      | false =>
          rw [if_neg Bool.false_ne_true, if_neg Bool.false_ne_true, ih]
          simp

/-- A block ends with a break, as its text does or else as a line feed was put behind it. -/
theorem endLine_literal {cs : List Char} (hne : cs ≠ []) (header : List Char) :
    Value.endLine (header ++ '\n' :: literalText width true cs) =
      header ++ '\n' :: literalText width true (Value.endLine cs) := by
  obtain ⟨front, c, rfl⟩ := (List.eq_nil_or_concat cs).resolve_left hne
  obtain ⟨more, hmore⟩ : ∃ more, literalText width true (front ++ [c]) = more ++ [c] := by
    rw [literalText_append]
    cases hc : endsLine c <;> simp [literalText, hc, ← List.append_assoc]
  have hfeed (broken : Bool) : literalText width broken ['\n'] = ['\n'] := rfl
  have happend : header ++ '\n' :: (more ++ [c]) = (header ++ '\n' :: more) ++ [c] := by simp
  rw [List.concat_eq_append, hmore, happend, endLine_concat, endLine_concat]
  cases hc : endsLine c with
  | true => simp [hmore]
  | false =>
      rw [if_neg Bool.false_ne_true, literalText_append true (front ++ [c]), hmore, hfeed]
      simp

/-- If the first line begins with no blank, its indentation need not be said. -/
theorem readLines?_first {cs : List Char} (hprintable : ∀ c ∈ cs, isPrintable c = true)
    (hne : cs ≠ []) (hbegins : beginsBlank cs = false) (hfloor : floor ≤ width) :
    readLines? floor (literalText width true (Value.endLine cs) ++ rest) line 0 none []
        (.indentation 0) =
      readLines? floor (literalText width true (Value.endLine cs) ++ rest) line 0 (some width) []
        (.indentation 0) := by
  cases cs with
  | nil => exact absurd rfl hne
  | cons c cs =>
      have hc := hprintable c List.mem_cons_self
      rw [beginsBlank, List.head?_cons, Option.any_some, Bool.or_eq_false_iff] at hbegins
      have hblank : isBlank c = false := by rw [isBlank_eq hc, hbegins.1]
      have hbreak : isBreak c = false := by rw [isBreak_eq hc, hbegins.2]
      obtain ⟨more, hmore⟩ : ∃ more, Value.endLine (c :: cs) = c :: more := by
        rw [Value.endLine]
        split <;> exact ⟨_, rfl⟩
      rw [hmore, literalText, if_neg (by simp [hbegins.2]), if_pos rfl, List.append_assoc,
        List.cons_append, readLines?_open hblank hbreak hfloor, readLines?_indented hbreak]

/-- **A literal block is read back,** up to a line that is not indented as far. -/
theorem read?_literal (line column : Nat) {indent column' : Nat} {cs next : List Char}
    (hne : cs ≠ [])
    (hprintable : ∀ c ∈ cs, isPrintable c = true) (hcolumn : column' < indent + 2)
    (hnext : Resumes next)
    (hrest : '|' :: rest =
      Value.endLine (scalarText (indent + 2) cs .literal) ++ (spaces column' ++ next)) :
    ∃ line', read? false (indent + 1) ⟨rest, line, column⟩ =
      some (cs, ⟨next, line', column'⟩) := by
  rw [scalarText, endLine_literal hne, literalHeader_eq, List.append_assoc, List.cons_append,
    List.cons_append] at hrest
  obtain ⟨-, rfl⟩ := List.cons.inj hrest
  obtain ⟨lines, trailing, line', hread, hfound⟩ : ∃ lines trailing line',
      readLines? (max (indent + 1) 1)
        (literalText (indent + 2) true (Value.endLine cs) ++ (spaces column' ++ next)) (line + 1) 0
        (some (indent + 2)) [] (.indentation 0) = some (lines, trailing, ⟨next, line', column'⟩) ∧
      Found ([] ++ Value.endLine cs) lines trailing :=
    readLines?_literalText hcolumn hnext (isPrintable_of_mem_endLine hprintable)
      (.start 0 (List.forall_mem_nil _)) (breaksAfter_endLine hne true) (fun _ => rfl)
  refine ⟨line', ?_⟩
  have hblock : readLines? (max (indent + 1) 1)
      (literalText (indent + 2) true (Value.endLine cs) ++ (spaces column' ++ next)) (line + 1) 0
      (if beginsBlank cs then some (indent + 2) else none) [] (.indentation 0) =
      some (lines, trailing, ⟨next, line', column'⟩) := by
    cases hbegins : beginsBlank cs with
    | true => exact hread
    | false =>
        rw [if_neg Bool.false_ne_true, ← hread]
        exact readLines?_first hprintable hne hbegins (by omega)
  have hindent : (if (if beginsBlank cs then 2 else 0) = 0 then none else
      some (indent + 1 - 1 + if beginsBlank cs then 2 else 0)) =
      if beginsBlank cs then some (indent + 2) else none := by
    cases beginsBlank cs <;> rfl
  have hfeed (more : List Char) : dropComment ('\n' :: more) = '\n' :: more := rfl
  have hbreak : isBreak '\n' = true := by decide
  have hcontent : content false (chompOf cs) lines trailing = cs :=
    hfound.content_eq (suits_chompOf hne)
  rw [read?, readSigns?_sign]
  simp only [hindent, hfeed, hbreak, if_true, hblock, Option.map_some, hcontent]

end Block

end ConfigGraft.Yaml
