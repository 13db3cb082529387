import SqlalchemyCollectd.Connmon.Ageing
import SqlalchemyCollectd.Connmon.Layouts

/-!
# SqlalchemyCollectd.Connmon.Frames

When a frame is drawn and when the display dies of it.

What is shown comes from the network: the names of hosts and programs, and the counts. A
name may have codes or a null character in it, and a count may be no number at all.
`Settles` says of an action exactly when it returns; from one action to the next this adds
up to the condition under which `_render` does (`render_returns_iff`).
-/

namespace SqlalchemyCollectd

open Markup

/-! ### Colours that are known -/

/-- A colour that `_get_color` knows, whatever numbers `curses` has for it. -/
def IsColor (color : Text) : Prop := color ≠ [] ∧ ∀ char ∈ color, char ∈ colorMap ++ ['b', 'n']

-- over the letters of the colour, not over all characters there are
instance (color : Text) : Decidable (IsColor color) :=
  @instDecidableAnd _ _ inferInstance (List.decidableBAll _ color)

theorem isColor_default : IsColor ['D'] := by decide

theorem isSome_get?_colorPairs (curses : Curses) (char : Char) :
    (curses.colorPairs.get? [char]).isSome ↔ char ∈ colorMap ++ ['b', 'n'] := by
  rw [← OrderedDict.mem_keys_iff, curses.keys_colorPairs]
  simp

theorem isSome_mapM {α β : Type} {f : α → Option β} {as : List α} :
    (as.mapM f).isSome ↔ ∀ a ∈ as, (f a).isSome := by
  induction as with
  | nil => simp
  | cons a as ih =>
      rw [List.mapM_cons, List.forall_mem_cons, ← ih]
      cases f a <;> cases as.mapM f <;> simp

theorem isSome_color?_iff (curses : Curses) (color : Text) :
    (curses.color? color).isSome ↔ IsColor color := by
  match color with
  | [] => simp [Curses.color?, IsColor]
  | [char] => simp [Curses.color?, IsColor, isSome_get?_colorPairs]
  | char :: char' :: rest =>
      rw [Curses.color?, Option.isSome_map, isSome_mapM]
      simp only [isSome_get?_colorPairs]
      exact ⟨fun h => ⟨List.cons_ne_nil _ _, h⟩, fun h => h.2⟩
      all_goals simp

/-! ### Texts that can be written -/

/-- A character that has no meaning. -/
def PlainChar (char : Char) : Prop := char ≠ '#' ∧ char ≠ '\x00'

instance (char : Char) : Decidable (PlainChar char) :=
  inferInstanceAs (Decidable (char ≠ '#' ∧ char ≠ '\x00'))

/-- A text without codes that can be written. -/
def Plain (text : Text) : Prop := ∀ char ∈ text, PlainChar char

instance (text : Text) : Decidable (Plain text) := List.decidableBAll _ text

@[simp]
theorem plain_nil : Plain [] := by simp [Plain]

@[simp]
theorem plain_cons_iff {char : Char} {text : Text} :
    Plain (char :: text) ↔ PlainChar char ∧ Plain text :=
  List.forall_mem_cons

@[simp]
theorem plain_append_iff {xs ys : Text} : Plain (xs ++ ys) ↔ Plain xs ∧ Plain ys :=
  List.forall_mem_append

@[simp]
theorem plain_replicate_space (n : ℕ) : Plain (List.replicate n ' ') := by
  intro char hchar
  rw [List.eq_of_mem_replicate hchar]
  decide

theorem Plain.not_mem {text : Text} (h : Plain text) : '#' ∉ text := fun hmem => (h _ hmem).1 rfl

/-- Every token that is taken for a code is one, and all of them can be written. -/
def Knows (s : Segments Char) : Prop :=
  ∀ token ∈ s.tokens,
    '\x00' ∉ token ∧ ∀ ccode ∈ colorCode? token, ccode = ['d'] ∨ IsColor ccode

instance (s : Segments Char) : Decidable (Knows s) :=
  inferInstanceAs (Decidable (∀ token ∈ s.tokens,
    '\x00' ∉ token ∧ ∀ ccode ∈ colorCode? token, ccode = ['d'] ∨ IsColor ccode))

theorem colorCode?_cons {char : Char} (h : char ≠ '#') (rest : Text) :
    colorCode? (char :: rest) = none := by
  rw [colorCode?]
  rintro ccode ⟨⟩
  exact h rfl

theorem knows_append {xs : Text} (h : Plain xs) {ys : Text} (hys : Knows (segments textRe ys)) :
    Knows (segments textRe (xs ++ ys)) := by
  rw [segments_append h.not_mem]
  intro token htoken
  obtain rfl | htoken := List.mem_cons.mp htoken
  · obtain ⟨hwritable, hcode⟩ := hys _ List.mem_cons_self
    refine ⟨fun hmem => ?_, fun ccode hmem => ?_⟩
    · exact (List.mem_append.mp hmem).elim (fun hmem => (h _ hmem).2 rfl) hwritable
    · cases xs with
      | nil => exact hcode ccode hmem
      | cons x xs =>
          rw [Segments.prepend, List.cons_append, colorCode?_cons (h x List.mem_cons_self).1] at hmem
          cases hmem
  · exact hys token (List.mem_cons_of_mem _ htoken)

theorem knows_of_plain {xs : Text} (h : Plain xs) : Knows (segments textRe xs) := by
  rw [← List.append_nil xs]
  exact knows_append h (by decide)

theorem knows_code {code : Text} (hcode : IsCode textRe code) (hcolor : code = ['d'] ∨ IsColor code)
    {ys : Text} (hys : Knows (segments textRe ys)) :
    Knows (segments textRe ('#' :: code ++ '&' :: ys)) := by
  have hsegments := segments_code hcode ys
  change segments textRe ('#' :: code ++ '&' :: ys) = _ at hsegments
  rw [hsegments]
  have hletters : '\x00' ∉ code := by
    obtain rfl | hcolor := hcolor
    · decide
    · exact fun hmem => absurd (hcolor.2 _ hmem) (by decide)
  intro token htoken
  rw [Segments.tokens_addCode] at htoken
  obtain rfl | htoken := List.mem_cons.mp htoken
  · exact ⟨by simp, fun _ hmem => by cases hmem⟩
  · obtain rfl | htoken := List.mem_cons.mp htoken
    · refine ⟨by simpa [textRe] using hletters, fun ccode hmem => ?_⟩
      cases hmem
      exact hcolor
    · exact hys token htoken

theorem isSome_drawn {curses : Curses} {cols dflt : ℕ} {tokens : List Text} {x : ℤ}
    {currentColor : ℕ} (h : ∀ token ∈ tokens, '\x00' ∉ token ∧
      ∀ ccode ∈ colorCode? token, ccode = ['d'] ∨ IsColor ccode) :
    (drawn curses cols dflt tokens x currentColor).isSome := by
  induction tokens generalizing x currentColor with
  | nil => rfl
  | cons token tokens ih =>
      obtain ⟨htoken, htokens⟩ := List.forall_mem_cons.mp h
      rw [drawn]
      split
      · rename_i ccode hcode
        split
        · exact ih htokens
        · rename_i hother
          have hcolor := (htoken.2 ccode hcode).resolve_left hother
          obtain ⟨color, hcolor⟩ :=
            Option.isSome_iff_exists.mp ((isSome_color?_iff curses ccode).mpr hcolor)
          rw [hcolor, Option.bind_some]
          exact ih htokens
      · have hwritable : '\x00' ∉ sliceTo (cols - x) token :=
          fun hmem => htoken.1 (List.mem_of_mem_take hmem)
        rw [if_neg hwritable]
        split
        · rfl
        · rw [Option.isSome_map]
          exact ih htokens

theorem isSome_runs (curses : Curses) (cols : ℕ) (x : ℤ) {text defaultColor : Text}
    (centerWithinWidth : Option ℤ) (htext : Knows (segments textRe text))
    (hdefault : IsColor defaultColor) :
    (curses.runs cols x text defaultColor centerWithinWidth).isSome := by
  obtain ⟨dflt, hdflt⟩ :=
    Option.isSome_iff_exists.mp ((isSome_color?_iff curses defaultColor).mpr hdefault)
  rw [Curses.runs, hdflt, Option.bind_some]
  exact isSome_drawn htext

/-! ### When actions return -/

/-- An action that returns if `P`, and raises if not, whatever colours have been put
together before. -/
def Settles (curses : Curses) (act : EStateM DisplayError Frame Unit) (P : Prop) : Prop :=
  ∀ frame, curses.Cached frame.colorPairs →
    (P → ∃ frame', curses.Cached frame'.colorPairs ∧ act frame = .ok () frame') ∧
      (¬P → ∃ e frame', act frame = .error e frame')

namespace Settles

variable {curses : Curses} {a b : EStateM DisplayError Frame Unit} {P Q : Prop}

theorem congr (h : Settles curses a P) (hPQ : P ↔ Q) : Settles curses a Q := by
  intro frame hframe
  exact ⟨fun hQ => (h frame hframe).1 (hPQ.mpr hQ), fun hQ => (h frame hframe).2 fun hP => hQ (hPQ.mp hP)⟩

theorem pure : Settles curses (Pure.pure ()) True := by
  intro frame hframe
  exact ⟨fun _ => ⟨frame, hframe, rfl⟩, fun h => absurd trivial h⟩

theorem bind (ha : Settles curses a P) (hb : Settles curses b Q) :
    Settles curses (a >>= fun _ => b) (P ∧ Q) := by
  intro frame hframe
  by_cases hP : P
  · obtain ⟨frame', hframe', ha⟩ := (ha frame hframe).1 hP
    have hstep : (a >>= fun _ => b) frame = b frame' := by
      simp only [Bind.bind, EStateM.bind, ha]
    rw [hstep]
    exact ⟨fun h => (hb frame' hframe').1 h.2, fun h => (hb frame' hframe').2 fun hQ => h ⟨hP, hQ⟩⟩
  · obtain ⟨e, frame', ha⟩ := (ha frame hframe).2 hP
    refine ⟨fun h => absurd h.1 hP, fun _ => ⟨e, frame', ?_⟩⟩
    simp only [Bind.bind, EStateM.bind, ha]

theorem forM {ι : Type} {f : ι → EStateM DisplayError Frame Unit} {P : ι → Prop} {l : List ι}
    (h : ∀ i ∈ l, Settles curses (f i) (P i)) : Settles curses (l.forM f) (∀ i ∈ l, P i) := by
  induction l with
  | nil => exact pure.congr (by simp)
  | cons i l ih =>
      obtain ⟨hi, hl⟩ := List.forall_mem_cons.mp h
      exact (hi.bind (ih hl)).congr List.forall_mem_cons.symm

theorem evaluate {β : Type} {x : Except DisplayError β} {f : β → EStateM DisplayError Frame Unit}
    {P : β → Prop} (h : ∀ b, x = .ok b → Settles curses (f b) (P b)) :
    Settles curses (SqlalchemyCollectd.evaluate x >>= f) (∃ b, x = .ok b ∧ P b) := by
  intro frame hframe
  cases hx : x with
  | ok b =>
      have hstep : (SqlalchemyCollectd.evaluate (.ok b) >>= f) frame = f b frame := rfl
      obtain ⟨hreturns, hraises⟩ := h b hx frame hframe
      rw [hstep]
      refine ⟨?_, fun hb => hraises fun hPb => hb ⟨b, rfl, hPb⟩⟩
      rintro ⟨b', heq, hPb⟩
      cases heq
      exact hreturns hPb
  | error e =>
      refine ⟨?_, fun _ => ⟨e, frame, rfl⟩⟩
      rintro ⟨b, heq, -⟩
      cases heq

theorem renderStr (winsize : Winsize) (y x : ℤ) (text defaultColor : Text)
    (centerWithinWidth : Option ℤ) :
    Settles curses (SqlalchemyCollectd.renderStr winsize y x text defaultColor centerWithinWidth)
      (curses.runs winsize.cols x text defaultColor centerWithinWidth).isSome := by
  intro frame hframe
  cases hruns : curses.runs winsize.cols x text defaultColor centerWithinWidth with
  | some runs =>
      obtain ⟨colorPairs, hcached, hrender⟩ := renderStr_of_some (y := y) hframe hruns
      exact ⟨fun _ => ⟨_, hcached, hrender⟩, fun h => absurd rfl h⟩
  | none => exact ⟨fun h => absurd h Bool.false_ne_true, fun _ => renderStr_of_none hframe hruns⟩

/-- A text whose codes are known can be written anywhere. -/
theorem renderStr_of_knows (winsize : Winsize) (y x : ℤ) {text defaultColor : Text}
    (centerWithinWidth : Option ℤ) (htext : Knows (segments textRe text))
    (hdefault : IsColor defaultColor) :
    Settles curses (SqlalchemyCollectd.renderStr winsize y x text defaultColor centerWithinWidth)
      True :=
  (renderStr winsize y x text defaultColor centerWithinWidth).congr
    ⟨fun _ => trivial, fun _ => isSome_runs curses winsize.cols x centerWithinWidth htext hdefault⟩

end Settles

/-! ### Numbers -/

/-- The number is one, and it is finite. -/
def Number.Finite (x : Number) : Prop :=
  ∃ q : ℚ, x.value? = some ((q : WithTop ℚ) : WithBot (WithTop ℚ))

theorem exists_toInt_iff {x : Number} : (∃ n, x.toInt = .ok n) ↔ x.Finite := by
  cases x with
  | int n => exact ⟨fun _ => ⟨n, rfl⟩, fun _ => ⟨n, rfl⟩⟩
  | float x =>
      simp only [Number.toInt, Number.Finite, Number.value?, Float.value?]
      cases x.toModel.unpack with
      | notANumber => simp
      | infinity s =>
          cases s with
          | positive =>
              simp only [reduceCtorEq, exists_false, false_iff, not_exists]
              exact fun q h => WithTop.top_ne_coe (WithBot.coe_injective (Option.some.inj h))
          | negative => simp
      | zero s => exact ⟨fun _ => ⟨0, rfl⟩, fun _ => ⟨0, rfl⟩⟩
      | finite s m e hm => exact ⟨fun _ => ⟨_, rfl⟩, fun _ => ⟨_, rfl⟩⟩

theorem plainChar_of_isDigit {char : Char} (h : char.isDigit) : PlainChar char := by
  constructor
  · rintro rfl
    exact absurd h (by decide)
  · rintro rfl
    exact absurd h (by decide)

@[simp]
theorem plain_toDigits (n : ℕ) : Plain (Nat.toDigits 10 n) :=
  fun _ hmem => plainChar_of_isDigit (Nat.isDigit_of_mem_toDigits (by decide) (by decide) hmem)

@[simp]
theorem plain_intText (n : ℤ) : Plain (intText n) := by
  have hminus : PlainChar '-' := by decide
  unfold intText
  split <;> simp [hminus]

theorem plain_rjust {width : ℕ} {text : Text} (h : Plain text) : Plain (rjust width text) := by
  simp [rjust, h]

theorem plain_floatText (x : Float) : Plain (floatText x) := by
  have hdigit : ∀ n : ℕ, PlainChar (Nat.digitChar (n % 10)) := by
    intro n
    have hlt := Nat.mod_lt n (by decide : 10 > 0)
    interval_cases n % 10 <;> decide
  have hminus : PlainChar '-' := by decide
  have hpoint : PlainChar '.' := by decide
  unfold floatText
  cases x.toModel.unpack with
  | notANumber => decide
  | infinity s => cases s <;> decide
  | zero s => cases s <;> decide
  | finite s m e hm => cases s <;> simp [hdigit, hminus, hpoint]

/-! ### Cells -/

theorem plain_dashForFmt {fmtFrag : Fragment} {part : Text} (h : dashForFmt fmtFrag = .ok part) :
    Plain part := by
  unfold dashForFmt at h
  cases hsample : fmtFrag.format (.number (.int 5)) with
  | error e =>
      rw [hsample] at h
      cases h
  | ok sample =>
      rw [hsample] at h
      obtain rfl := Except.ok.inj h
      intro char hmem
      obtain ⟨char', -, rfl⟩ := List.mem_map.mp hmem
      split <;> decide

/-- A number can be written, and has no code in it. -/
theorem plain_fragText {p : Fragment × Option Elem} (hfrag : p.1 ≠ .s) {part : Text}
    (h : fragText p = .ok part) : Plain part := by
  obtain ⟨fmtFrag, elem⟩ := p
  cases elem with
  | none => exact plain_dashForFmt h
  | some elem =>
      change fmtFrag.format elem = .ok part at h
      cases fmtFrag with
      | s => exact absurd rfl hfrag
      | d width =>
          cases elem with
          | str text => cases h
          | number x =>
              rw [Fragment.format] at h
              cases hint : x.toInt with
              | error e =>
                  rw [hint] at h
                  cases h
              | ok n =>
                  rw [hint] at h
                  exact Except.ok.inj h ▸ plain_rjust (plain_intText n)
          | rational q => exact Except.ok.inj h ▸ plain_rjust (plain_intText _)
      | f2 =>
          cases elem with
          | str text => cases h
          | number x =>
              cases x with
              | int n =>
                  rw [Fragment.format] at h
                  split at h
                  · cases h
                  · exact Except.ok.inj h ▸ plain_floatText _
              | float x => exact Except.ok.inj h ▸ plain_floatText x
          | rational q => cases h

theorem exists_mapM_iff {ι β : Type} {f : ι → Except DisplayError β} {l : List ι} :
    (∃ bs, l.mapM f = .ok bs) ↔ ∀ i ∈ l, ∃ b, f i = .ok b := by
  induction l with
  | nil => exact ⟨fun _ => by simp, fun _ => ⟨[], rfl⟩⟩
  | cons i l ih =>
      rw [List.mapM_cons, List.forall_mem_cons, ← ih]
      cases f i with
      | error e =>
          constructor
          · rintro ⟨_, h⟩
            cases h
          · rintro ⟨⟨_, h⟩, -⟩
            cases h
      | ok b =>
          cases l.mapM f with
          | error e =>
              constructor
              · rintro ⟨_, h⟩
                cases h
              · rintro ⟨-, _, h⟩
                cases h
          | ok bs => exact ⟨fun _ => ⟨⟨b, rfl⟩, bs, rfl⟩, fun _ => ⟨b :: bs, rfl⟩⟩

theorem exists_of_mem_mapM {ι β : Type} {f : ι → Except DisplayError β} {l : List ι} {bs : List β}
    (h : l.mapM f = .ok bs) : ∀ b ∈ bs, ∃ i ∈ l, f i = .ok b := by
  induction l generalizing bs with
  | nil =>
      obtain rfl := Except.ok.inj h
      simp
  | cons i l ih =>
      rw [List.mapM_cons] at h
      cases hi : f i with
      | error e =>
          rw [hi] at h
          cases h
      | ok b =>
          cases hl : l.mapM f with
          | error e =>
              rw [hi, hl] at h
              cases h
          | ok bs' =>
              rw [hi, hl] at h
              obtain rfl := Except.ok.inj h
              exact List.forall_mem_cons.mpr ⟨⟨i, List.mem_cons_self, hi⟩, fun b' hb' =>
                (ih hl b' hb').imp fun i' h' => ⟨List.mem_cons_of_mem _ h'.1, h'.2⟩⟩

/-- What it takes to write a cell. -/
def Cell.Shown (curses : Curses) (cols : ℕ) (x : ℤ) (center : Option ℤ) (fmt : List Fragment)
    (elem : List (Option Elem)) : Prop :=
  ∃ text, cellText fmt elem = .ok text ∧ (curses.runs cols x text ['D'] center).isSome

theorem plain_intercalate {parts : List Text} (h : ∀ part ∈ parts, Plain part) :
    Plain (List.intercalate [' ', ' '] parts) := by
  have hspace : PlainChar ' ' := by decide
  induction parts with
  | nil => simp
  | cons part parts ih =>
      obtain ⟨hpart, hparts⟩ := List.forall_mem_cons.mp h
      cases parts with
      | nil => simpa using hpart
      | cons part' parts =>
          rw [List.intercalate_cons_cons]
          simp [hpart, hspace, ih hparts]

/-- A cell of numbers is written when they can be formatted. -/
theorem shown_numbers_iff {curses : Curses} {cols : ℕ} {x : ℤ} {center : Option ℤ}
    {fmt : List Fragment} {elem : List (Option Elem)} (hfmt : Fragment.s ∉ fmt) :
    Cell.Shown curses cols x center fmt elem ↔
      ∀ p ∈ fmt.zip elem, ∃ part, fragText p = .ok part := by
  rw [← exists_mapM_iff, Cell.Shown, cellText]
  cases hparts : (fmt.zip elem).mapM fragText with
  | error e =>
      constructor
      · rintro ⟨_, h, -⟩
        cases h
      · rintro ⟨_, h⟩
        cases h
  | ok parts =>
      refine ⟨fun _ => ⟨parts, rfl⟩, fun _ => ⟨_, rfl, ?_⟩⟩
      refine isSome_runs curses cols x center (knows_of_plain ?_) isColor_default
      refine plain_intercalate fun part hpart => ?_
      obtain ⟨p, hp, hpart⟩ := exists_of_mem_mapM hparts part hpart
      refine plain_fragText (fun hs => hfmt ?_) hpart
      exact hs ▸ (List.of_mem_zip hp).1

/-! ### Totals -/

theorem knows_totalsText {first second ending : Text} (hfirst : Plain first)
    (hsecond : Plain second) (hending : Plain ending) (a b c d : ℤ) :
    Knows (segments textRe (totalsText first second ending a b c d)) := by
  have hnameCode : IsCode textRe ['M', 'b'] := ⟨'M', ['b'], rfl, by simp [textRe], by simp [textRe]⟩
  have hvaluesCode : IsCode textRe ['D', 'n'] := ⟨'D', ['n'], rfl, by simp [textRe], by simp [textRe]⟩
  have hname : ∀ {ys : Text}, Knows (segments textRe ys) →
      Knows (segments textRe ("#Mb&".toList ++ ys)) := fun hys =>
    knows_code hnameCode (by decide) hys
  have hvalues : ∀ {ys : Text}, Knows (segments textRe ys) →
      Knows (segments textRe (": #Dn&[".toList ++ ys)) := fun hys =>
    knows_append (by decide : Plain ": ".toList)
      (knows_code hvaluesCode (by decide) (knows_append (by decide : Plain "[".toList) hys))
  have hbetween : ∀ {ys : Text}, Knows (segments textRe ys) →
      Knows (segments textRe (" max]  #Mb&".toList ++ ys)) := fun hys =>
    knows_append (by decide : Plain " max]  ".toList) (hname hys)
  unfold totalsText
  simp only [List.append_assoc]
  refine hname (knows_append hfirst (hvalues (knows_append (plain_intText a) ?_)))
  refine knows_append (by decide) (knows_append (plain_intText b) (hbetween ?_))
  refine knows_append hsecond (hvalues (knows_append (plain_intText c) ?_))
  refine knows_append (by decide) (knows_append (plain_intText d) ?_)
  exact knows_append (by decide) (knows_of_plain hending)

/-- The totals that are shown as integers. -/
def Stat.totals (stat : Stat) : List Number :=
  [stat.processCount, stat.maxProcessCount, stat.connectionCount, stat.maxConnections,
    stat.checkoutCount, stat.maxCheckedout]

/-- These totals can be formatted. -/
def Stat.TotalsShown (stat : Stat) : Prop := ∀ x ∈ stat.totals, x.Finite

/-- So can the rate. -/
def Stat.RateShown (stat : Stat) : Prop :=
  ∀ x ∈ stat.checkoutsPerSecond, ∃ text, Fragment.f2.format (.number x) = .ok text

theorem Stat.totalsShown_of_zero {stat : Stat}
    (hcounts : stat.totals = List.replicate 6 (.int 0)) : stat.TotalsShown := by
  intro x hx
  rw [hcounts] at hx
  exact List.eq_of_mem_replicate hx ▸ ⟨0, rfl⟩

theorem exists_checkoutsText_iff {rate : Option Number} :
    (∃ text, checkoutsText rate = .ok text) ↔
      ∀ x ∈ rate, ∃ text, Fragment.f2.format (.number x) = .ok text := by
  cases rate with
  | none => simp [checkoutsText]
  | some x =>
      simp only [checkoutsText, Option.mem_some_iff, forall_eq']
      cases Fragment.f2.format (.number x) <;> simp [Except.map]

theorem plain_checkoutsText {rate : Option Number} {text : Text}
    (h : checkoutsText rate = .ok text) : Plain text := by
  cases rate with
  | none => exact Except.ok.inj h ▸ (by decide)
  | some x =>
      rw [checkoutsText] at h
      cases hformat : Fragment.f2.format (.number x) with
      | error e =>
          rw [hformat] at h
          cases h
      | ok part =>
          rw [hformat] at h
          have hpart : Plain part :=
            plain_fragText (p := (.f2, some (.number x))) Fragment.noConfusion hformat
          rw [← Except.ok.inj h]
          exact plain_append_iff.mpr ⟨hpart, by decide⟩

theorem Settles.renderTotals (curses : Curses) (winsize : Winsize) (stat : Stat) :
    Settles curses (SqlalchemyCollectd.renderTotals winsize stat)
      (stat.TotalsShown ∧ stat.RateShown) := by
  have hdefault : IsColor ['W', 'b'] := by decide
  have hfirst : ∀ processes maxProcesses : ℤ, Settles curses
      (SqlalchemyCollectd.renderStr winsize 2 0 (totalsText "Hosts".toList "Processes".toList
        "]  ".toList stat.hostCount stat.maxHostCount processes maxProcesses) ['W', 'b']) True :=
    fun processes maxProcesses => .renderStr_of_knows winsize 2 0 none
      (knows_totalsText (by decide) (by decide) (by decide) _ _ _ _) hdefault
  have hsecond : ∀ persecond, Plain persecond → ∀ connections maxConnections checkouts
      maxCheckedout : ℤ, Settles curses (SqlalchemyCollectd.renderStr winsize 3 0
        (totalsText "Connections".toList "Checkouts".toList
          (" / ".toList ++ persecond ++ "]".toList) connections maxConnections checkouts
          maxCheckedout) ['W', 'b']) True :=
    fun persecond hpersecond connections maxConnections checkouts maxCheckedout =>
      .renderStr_of_knows winsize 3 0 none
        (knows_totalsText (by decide) (by decide)
          (plain_append_iff.mpr ⟨plain_append_iff.mpr ⟨by decide, hpersecond⟩, by decide⟩) _ _ _ _)
        hdefault
  -- in the order in which Python evaluates it: one line is drawn before the other is formatted
  have hsettles := evaluate (x := stat.processCount.toInt) fun processes _ =>
    evaluate (x := stat.maxProcessCount.toInt) fun maxProcesses _ =>
      (hfirst processes maxProcesses).bind <|
        evaluate (x := checkoutsText stat.checkoutsPerSecond) fun persecond hpersecond =>
          evaluate (x := stat.connectionCount.toInt) fun connections _ =>
            evaluate (x := stat.maxConnections.toInt) fun maxConnections _ =>
              evaluate (x := stat.checkoutCount.toInt) fun checkouts _ =>
                evaluate (x := stat.maxCheckedout.toInt) fun maxCheckedout _ =>
                  hsecond persecond (plain_checkoutsText hpersecond) connections maxConnections
                    checkouts maxCheckedout
  refine hsettles.congr ?_
  constructor
  · rintro ⟨a, ha, b, hb, -, t, ht, c, hc, d, hd, e, he, f, hf, -⟩
    refine ⟨?_, exists_checkoutsText_iff.mp ⟨t, ht⟩⟩
    simp only [Stat.TotalsShown, Stat.totals, List.forall_mem_cons]
    exact ⟨exists_toInt_iff.mp ⟨a, ha⟩, exists_toInt_iff.mp ⟨b, hb⟩, exists_toInt_iff.mp ⟨c, hc⟩,
      exists_toInt_iff.mp ⟨d, hd⟩, exists_toInt_iff.mp ⟨e, he⟩, exists_toInt_iff.mp ⟨f, hf⟩,
      by simp⟩
  · rintro ⟨hcounts, hrate⟩
    simp only [Stat.TotalsShown, Stat.totals, List.forall_mem_cons,
      ← exists_toInt_iff] at hcounts
    obtain ⟨⟨a, ha⟩, ⟨b, hb⟩, ⟨c, hc⟩, ⟨d, hd⟩, ⟨e, he⟩, ⟨f, hf⟩, -⟩ := hcounts
    obtain ⟨t, ht⟩ := exists_checkoutsText_iff.mpr hrate
    exact ⟨a, ha, b, hb, trivial, t, ht, c, hc, d, hd, e, he, f, hf, trivial⟩

/-! ### The names of the columns -/

theorem knows_cname {kind : StatKind} {col : Column} (hcol : col ∈ kind.columns) :
    ∀ name ∈ justifyRows col.cname, Knows (segments textRe name) := by
  have hnames : ∀ col ∈ progColumns, ∀ name ∈ justifyRows col.cname,
      Knows (segments textRe name) := by decide
  cases kind with
  | prog => exact hnames col hcol
  | host =>
      refine hnames col ?_
      obtain hcol | hcol := List.mem_append.mp hcol
      · exact List.mem_of_mem_take hcol
      · exact List.mem_of_mem_drop hcol

theorem Settles.renderNames (curses : Curses) (winsize : Winsize) (xPositions : List (ℤ × ℤ))
    (kind : StatKind) :
    Settles curses (SqlalchemyCollectd.renderNames winsize xPositions kind.columns) True := by
  have hdefault : IsColor ['C', 'b'] := by decide
  have hsettles : Settles curses
      (SqlalchemyCollectd.renderNames winsize xPositions kind.columns)
      (∀ i ∈ kind.columns.zip xPositions, ∀ j ∈ ((justifyRows i.1.cname).take 2).zipIdx, True) := by
    refine forM fun i hi => forM fun j hj => ?_
    refine renderStr_of_knows winsize _ _ _ ?_ hdefault
    refine knows_cname (List.of_mem_zip hi).1 j.1 ?_
    exact List.mem_of_mem_take (List.fst_mem_of_mem_zipIdx hj)
  exact hsettles.congr (by simp)

/-! ### Rows -/

theorem Settles.renderRow (curses : Curses) (winsize : Winsize) (xPositions : List (ℤ × ℤ))
    (columns : List Column) (row : List (List (Option Elem))) (y : ℤ) :
    Settles curses (SqlalchemyCollectd.renderRow winsize xPositions columns row y)
      (∀ i ∈ (row.zip columns).zip xPositions, Cell.Shown curses winsize.cols i.2.1
        (i.1.2.center i.2.2) i.1.2.fmt i.1.1) :=
  forM fun i _ => evaluate fun text _ => renderStr winsize y i.2.1 text ['D'] (i.1.2.center i.2.2)

/-- The counts in a row. -/
def HostProg.counts (row : HostProg) : List Number :=
  [row.processCount, some row.maxProcessCount, row.connectionCount, some row.maxConnections,
    row.intervalConnects, row.checkoutCount, some row.maxCheckedout,
    row.intervalCheckouts].reduceOption

/-- The width of the first column. -/
def hostnameWidth (cols : ℕ) : ℤ := (progColumns.map (Column.charwidth cols)).headD 0

/-- A row can be written: what is drawn of its names has only colours in it that are known,
and no null character, and its counts are finite. -/
structure HostProg.Shown (curses : Curses) (cols : ℕ) (row : HostProg) : Prop where
  hostname : (curses.runs cols 0 (colored row.isConnected row.hostname.toList) ['D'] none).isSome
  progname : ∀ progname ∈ row.progname,
    (curses.runs cols (hostnameWidth cols) progname.toList ['D'] none).isSome
  counts : ∀ x ∈ row.counts, x.Finite

section Cells

variable {curses : Curses} {cols : ℕ} {x : ℤ} {center : Option ℤ}

theorem cellText_text (text : Text) : cellText [.s] [some (.str text)] = .ok text :=
  congrArg Except.ok List.intercalate_singleton

theorem shown_text_iff {text : Text} :
    Cell.Shown curses cols x center [.s] [some (.str text)] ↔
      (curses.runs cols x text ['D'] center).isSome := by
  rw [Cell.Shown, cellText_text]
  refine ⟨?_, fun h => ⟨text, rfl, h⟩⟩
  rintro ⟨text', htext, h⟩
  exact Except.ok.inj htext ▸ h

theorem knows_colored (green : Bool) {text : Text} (htext : Knows (segments textRe text)) :
    Knows (segments textRe (colored green text)) := by
  have hcode : ∀ char ∈ ['G', 'R'], IsCode textRe [char] := by simp [IsCode, textRe]
  cases green with
  | true => exact knows_code (hcode 'G' (by decide)) (by decide) htext
  | false => exact knows_code (hcode 'R' (by decide)) (by decide) htext

theorem shown_lastMsg (green : Bool) (n : ℤ) (q : ℚ) :
    Cell.Shown curses cols x center [.s, .d 3]
      [some (.str (colored green (intText n))), some (.rational q)] := by
  refine ⟨_, rfl, isSome_runs curses cols x center ?_ isColor_default⟩
  have hinterval : Plain (rjust 3 (intText (pyInt q))) := plain_rjust (plain_intText _)
  have hspace : PlainChar ' ' := by decide
  exact knows_colored green (knows_of_plain (by simp [hspace, hinterval]))

theorem exists_fragText_iff {width : ℕ} {x : Option Number} :
    (∃ part, fragText (.d width, x.map .number) = .ok part) ↔ ∀ n ∈ x, n.Finite := by
  cases x with
  | none => exact ⟨fun _ => by simp, fun _ => ⟨_, rfl⟩⟩
  | some n =>
      simp only [Option.map_some, fragText, Fragment.format, Option.mem_some_iff, forall_eq',
        ← exists_toInt_iff]
      cases n.toInt <;> simp [Except.map]

theorem shown_counts_cell (xs : List (Option Number)) :
    Cell.Shown curses cols x center (xs.map fun _ => .d 4) (xs.map fun x => x.map .number) ↔
      ∀ x ∈ xs.reduceOption, x.Finite := by
  rw [shown_numbers_iff (by simp), List.zip_map', List.forall_mem_map]
  simp only [exists_fragText_iff, List.reduceOption_mem_iff]
  refine ⟨fun h x hx => h _ hx x rfl, fun h x hx n hn => h n ?_⟩
  obtain rfl := hn
  exact hx

theorem shown_rate (rate : Option Float) :
    Cell.Shown curses cols x center [.f2] [rate.map fun x => .number (.float x)] := by
  rw [shown_numbers_iff (by decide)]
  cases rate with
  | none => simpa using ⟨_, rfl⟩
  | some x => simpa using ⟨_, rfl⟩

/-- The columns after the names, which both screens have. -/
theorem shown_counts_iff (row : HostProg) (now : ℚ) {positions : List (ℤ × ℤ)}
    (hlength : positions.length = 5) :
    (∀ i ∈ (((rowForHostprog { row with progname := none } now).drop 1).zip
        (progColumns.drop 2)).zip positions,
      Cell.Shown curses cols i.2.1 (i.1.2.center i.2.2) i.1.2.fmt i.1.1) ↔
        ∀ x ∈ row.counts, x.Finite := by
  match positions, hlength with
  | [p₁, p₂, p₃, p₄, p₅], _ =>
      have hprocesses : ∀ x center, Cell.Shown curses cols x center [.d 4, .d 4]
          [row.processCount.map .number, some (.number row.maxProcessCount)] ↔
            ∀ x ∈ [row.processCount, row.maxProcessCount].reduceOption, x.Finite :=
        fun _ _ => shown_counts_cell [row.processCount, some row.maxProcessCount]
      have hconnections : ∀ x center, Cell.Shown curses cols x center [.d 4, .d 4, .d 4]
          [row.connectionCount.map .number, some (.number row.maxConnections),
            row.intervalConnects.map .number] ↔
            ∀ x ∈ [row.connectionCount, row.maxConnections, row.intervalConnects].reduceOption,
              x.Finite :=
        fun _ _ => shown_counts_cell
          [row.connectionCount, some row.maxConnections, row.intervalConnects]
      have hcheckouts : ∀ x center, Cell.Shown curses cols x center [.d 4, .d 4, .d 4]
          [row.checkoutCount.map .number, some (.number row.maxCheckedout),
            row.intervalCheckouts.map .number] ↔
            ∀ x ∈ [row.checkoutCount, row.maxCheckedout, row.intervalCheckouts].reduceOption,
              x.Finite :=
        fun _ _ => shown_counts_cell
          [row.checkoutCount, some row.maxCheckedout, row.intervalCheckouts]
      simp only [rowForHostprog, progColumns, List.drop_succ_cons, List.drop_zero, List.nil_append,
        List.cons_append, List.zip_cons_cons, List.zip_nil_left, List.forall_mem_cons,
        hprocesses, hconnections, hcheckouts, shown_lastMsg, shown_rate]
      simp only [HostProg.counts, List.reduceOption_mem_iff, List.mem_cons, List.not_mem_nil,
        or_false, or_imp, forall_and, false_imp_iff, implies_true, true_and, and_true, and_assoc]

end Cells

theorem calcXPositions_prog (cols : ℕ) : ∃ charwidth rest, rest.length = 5 ∧
    calcXPositions cols progColumns =
      (0, hostnameWidth cols) :: (0 + hostnameWidth cols, charwidth) :: rest :=
  ⟨_, _, rfl, rfl⟩

theorem calcXPositions_host (cols : ℕ) : ∃ rest, rest.length = 5 ∧
    calcXPositions cols hostColumns = (0, hostnameWidth cols) :: rest :=
  ⟨_, rfl, rfl⟩

/-- A row has the columns of its screen. -/
def StatKind.Suits (row : HostProg) : StatKind → Prop
  | .prog => row.progname ≠ none
  | .host => row.progname = none

theorem shown_row_iff {curses : Curses} {cols : ℕ} {kind : StatKind} {row : HostProg}
    (hkind : kind.Suits row) (now : ℚ) :
    (∀ i ∈ ((rowForHostprog row now).zip kind.columns).zip (calcXPositions cols kind.columns),
      Cell.Shown curses cols i.2.1 (i.1.2.center i.2.2) i.1.2.fmt i.1.1) ↔
        row.Shown curses cols := by
  -- a name is the only text of its column, and not centred
  have hname : ∀ {x charwidth : ℤ} {text : Text} {col : Column}, col ∈ progColumns.take 2 →
      (Cell.Shown curses cols x (col.center charwidth) col.fmt [some (.str text)] ↔
        (curses.runs cols x text ['D'] none).isSome) := by
    intro x charwidth text col hcol
    have hcols : col.fmt = [.s] ∧ col.just = .L := by
      simp only [progColumns, List.take_succ_cons, List.take_zero, List.mem_cons, List.not_mem_nil,
        or_false] at hcol
      obtain rfl | rfl := hcol <;> exact ⟨rfl, rfl⟩
    rw [hcols.1, Column.center, hcols.2]
    exact shown_text_iff
  -- the columns of names are kept apart from those of numbers
  obtain ⟨c₀, c₁, hmem₀, hmem₁, hprogColumns, hhostColumns⟩ : ∃ c₀ c₁ : Column,
      c₀ ∈ progColumns.take 2 ∧ c₁ ∈ progColumns.take 2 ∧
        progColumns = c₀ :: c₁ :: progColumns.drop 2 ∧
        hostColumns = c₀ :: progColumns.drop 2 :=
    ⟨_, _, .head _, .tail _ (.head _), rfl, rfl⟩
  cases kind with
  | host =>
      obtain ⟨rest, hlength, hpositions⟩ := calcXPositions_host cols
      have hprogname : row.progname = none := hkind
      have hrow : rowForHostprog row now =
          [some (.str (colored row.isConnected row.hostname.toList))] ::
            (rowForHostprog { row with progname := none } now).drop 1 := by
        simp only [rowForHostprog, hprogname]
        rfl
      change (∀ i ∈ ((rowForHostprog row now).zip hostColumns).zip
        (calcXPositions cols hostColumns), _) ↔ _
      rw [hrow, hpositions, hhostColumns, List.zip_cons_cons, List.zip_cons_cons,
        List.forall_mem_cons, shown_counts_iff row now hlength, hname hmem₀]
      exact ⟨fun h => ⟨h.1, by simp [hprogname], h.2⟩, fun h => ⟨h.hostname, h.counts⟩⟩
  | prog =>
      obtain ⟨charwidth, rest, hlength, hpositions⟩ := calcXPositions_prog cols
      obtain ⟨progname, hprogname⟩ := Option.ne_none_iff_exists'.mp hkind
      have hrow : rowForHostprog row now =
          [some (.str (colored row.isConnected row.hostname.toList))] ::
            [some (.str progname.toList)] ::
              (rowForHostprog { row with progname := none } now).drop 1 := by
        simp only [rowForHostprog, hprogname]
        rfl
      change (∀ i ∈ ((rowForHostprog row now).zip progColumns).zip
        (calcXPositions cols progColumns), _) ↔ _
      rw [hrow, hpositions, hprogColumns, List.zip_cons_cons, List.zip_cons_cons,
        List.zip_cons_cons, List.zip_cons_cons, List.forall_mem_cons, List.forall_mem_cons,
        shown_counts_iff row now hlength, hname hmem₀, hname hmem₁, zero_add]
      exact ⟨fun h => ⟨h.1, by simpa [hprogname] using h.2.1, h.2.2⟩,
        fun h => ⟨h.hostname, h.progname progname hprogname, h.counts⟩⟩

/-! ### Frames -/

theorem Settles.erase (curses : Curses) (window : Window) :
    Settles curses (modify fun frame => { frame with window }) True := by
  intro frame hframe
  exact ⟨fun _ => ⟨{ frame with window }, hframe, rfl⟩, fun h => absurd trivial h⟩

/-- The legend is always drawn. -/
theorem Settles.renderLegend (curses : Curses) (winsize : Winsize) :
    Settles curses (SqlalchemyCollectd.renderLegend winsize) True := by
  have hlines : ∀ line ∈ legendLines, Knows (segments textRe line) := by decide
  have hsettles : Settles curses (SqlalchemyCollectd.renderLegend winsize)
      (∀ i ∈ legendLines.zipIdx, True) :=
    forM fun i hi => renderStr_of_knows winsize _ _ _
      (hlines i.1 (List.fst_mem_of_mem_zipIdx hi)) isColor_default
  exact hsettles.congr (by simp)

theorem Settles.renderStats (curses : Curses) (winsize : Winsize) {stat : Stat} (now : ℚ)
    {kind : StatKind} (hsuits : ∀ row ∈ kind.hostprogs stat, kind.Suits row) :
    Settles curses (SqlalchemyCollectd.renderStats winsize
      (calcXPositions winsize.cols kind.columns) stat now kind)
      ((stat.TotalsShown ∧ stat.RateShown) ∧
        ∀ row ∈ kind.hostprogs stat, row.Shown curses winsize.cols) := by
  have hrows := forM (l := (kind.getRows stat now).zipIdx) fun i _ =>
    renderRow curses winsize (calcXPositions winsize.cols kind.columns) kind.columns i.1 (8 + i.2)
  refine ((renderTotals curses winsize stat).bind
    ((renderNames curses winsize _ kind).bind hrows)).congr ?_
  rw [true_and]
  refine and_congr_right fun _ => ?_
  have hfirst := List.forall_mem_map (f := Prod.fst) (l := (kind.getRows stat now).zipIdx)
    (P := fun row => ∀ i ∈ (row.zip kind.columns).zip (calcXPositions winsize.cols kind.columns),
      Cell.Shown curses winsize.cols i.2.1 (i.1.2.center i.2.2) i.1.2.fmt i.1.1)
  rw [← hfirst, List.zipIdx_map_fst, StatKind.getRows, List.forall_mem_map]
  exact forall₂_congr fun row hrow => shown_row_iff (hsuits row hrow) now

/-- A frame is drawn when its screen is. -/
theorem Settles.render {curses : Curses} {winsize : Winsize} {serviceStr : Text}
    (hservice : Plain serviceStr) {stat : Stat} {now : ℚ} {content : Content} {P : Prop}
    (hscreen : Settles curses (renderScreen winsize stat now content) P) :
    Settles curses (SqlalchemyCollectd.render winsize serviceStr content stat now) P := by
  have hbold : IsCode textRe ['B', 'b'] := ⟨'B', ['b'], rfl, by simp [textRe], by simp [textRe]⟩
  have hnormal : IsCode textRe ['D', 'n'] := ⟨'D', ['n'], rfl, by simp [textRe], by simp [textRe]⟩
  have htitle : Knows (segments textRe ("#Bb&[Connmon]#Dn& ".toList ++ serviceStr)) :=
    knows_code hbold (by decide) <| knows_append (by decide : Plain "[Connmon]".toList) <|
      knows_code hnormal (by decide) <| knows_append (by decide : Plain " ".toList) <|
        knows_of_plain hservice
  have hcommands : Knows (segments textRe
      ("#D&Commands: #Y&(H)#D&ost stats #Y&(P)#D&rogram stats ".toList ++
        "#Y&(?)#D&Legend #Y&(Q)#D&uit".toList)) := by decide
  refine ((erase curses fun _ _ => none).bind ((renderStr_of_knows winsize 0 0 none htitle
    isColor_default).bind ((renderStr_of_knows winsize 0 (-1) none hcommands
      isColor_default).bind hscreen))).congr ?_
  simp

/-- The rows of a screen are those that are kept under their names. -/
theorem mem_hostprogs_iff {stat : Stat} {row : HostProg} {kind : StatKind} :
    row ∈ kind.hostprogs stat ↔ ∃ hostname progname, stat.row? hostname progname = some row ∧
      (progname = none ↔ kind = .host) := by
  cases kind with
  | prog =>
      simp only [StatKind.hostprogs, sortHostprogs, List.mem_mergeSort, List.mem_map]
      constructor
      · rintro ⟨⟨⟨hostname, progname⟩, row'⟩, hmem, rfl⟩
        exact ⟨hostname, some progname, OrderedDict.mem_items_iff.mp hmem, by simp⟩
      · rintro ⟨hostname, _ | progname, hrow, hkind⟩
        · exact absurd (hkind.mp rfl) (by simp)
        · exact ⟨((hostname, progname), row), OrderedDict.mem_items_iff.mpr hrow, rfl⟩
  | host =>
      simp only [StatKind.hostprogs, sortHostprogs, List.mem_mergeSort, List.mem_map]
      constructor
      · rintro ⟨⟨hostname, row'⟩, hmem, rfl⟩
        exact ⟨hostname, none, OrderedDict.mem_items_iff.mp hmem, by simp⟩
      · rintro ⟨hostname, _ | progname, hrow, hkind⟩
        · exact ⟨(hostname, row), OrderedDict.mem_items_iff.mpr hrow, rfl⟩
        · exact absurd (hkind.mpr trivial) (by simp)

theorem suits_run (events : List Stat.Event) {kind : StatKind} :
    ∀ row ∈ kind.hostprogs (Stat.run events), kind.Suits row := by
  intro row hrow
  obtain ⟨hostname, progname, hrow, hkind⟩ := mem_hostprogs_iff.mp hrow
  have hprogname := (Stat.keyed_run events hostname progname row hrow).2
  cases kind with
  | prog => exact fun hnone => absurd (hkind.mp (hprogname.symm.trans hnone)) (by simp)
  | host => exact hprogname.trans (hkind.mpr rfl)

/-! ### The header of a run -/

namespace Stat

/-- What the totals are shown of. -/
def header (st : Stat) : List Number × Option Number := (st.totals, st.checkoutsPerSecond)

theorem TotalsShown.congr {st st' : Stat} (h : st.TotalsShown) (hheader : st'.header = st.header) :
    st'.TotalsShown := by
  have htotals : st'.totals = st.totals := (Prod.mk.inj hheader).1
  rw [TotalsShown, htotals]
  exact h

theorem RateShown.congr {st st' : Stat} (h : st.RateShown) (hheader : st'.header = st.header) :
    st'.RateShown := by
  have hrate : st'.checkoutsPerSecond = st.checkoutsPerSecond := (Prod.mk.inj hheader).2
  rw [RateShown, hrate]
  exact h

theorem header_setRow (hostname : String) (progname : Option String) (row : HostProg) (st : Stat) :
    (st.setRow hostname progname row).header = st.header := by
  cases progname <;> rfl

/-- A message changes rows only. -/
theorem header_message (m : Message Number) (st : Stat) :
    (st.step (.message m)).header = st.header := by
  obtain ⟨made, hupdate, -, hmade⟩ := update_eq m st
  have hheader : made.header = st.header := by
    obtain rfl | ⟨row, rfl⟩ := hmade
    · rfl
    · exact header_setRow ..
  rw [step, hupdate, onRow]
  cases HostProg.receive m (st.found m.host (rowName m.pluginInstance)) with
  | ok _ row => exact (header_setRow ..).trans hheader
  | error e row => exact (header_setRow ..).trans hheader

theorem header_ageHostprog {now : ℚ} {key : String × String} {row : HostProg} {st st' : Stat}
    (h : ageHostprog now key row st = .ok () st') : st'.header = st.header := by
  unfold ageHostprog at h
  split_ifs at h
  · unfold delHostprog at h
    cases hprogname : row.progname with
    | none =>
        rw [hprogname] at h
        cases h
    | some progname =>
        rw [hprogname] at h
        dsimp only at h
        split_ifs at h
        cases h
        rfl
  · cases h
    rfl
  · cases h
    rfl

theorem header_ageHostprogs {now : ℚ} {held : List ((String × String) × HostProg)} {st st' : Stat}
    (h : held.forM (fun e => ageHostprog now e.1 e.2) st = .ok () st') :
    st'.header = st.header := by
  induction held generalizing st with
  | nil =>
      cases h
      rfl
  | cons e held ih =>
      change EStateM.bind (ageHostprog now e.1 e.2) (fun _ => held.forM _) st = _ at h
      rw [EStateM.bind] at h
      cases hmid : ageHostprog now e.1 e.2 st with
      | error e mid =>
          rw [hmid] at h
          cases h
      | ok _ mid =>
          rw [hmid] at h
          exact (ih h).trans (header_ageHostprog hmid)

/-- The totals of a pass are those of `update_host_stats`. -/
theorem header_pass {st : Stat} (h : st.Keyed) (now : ℚ) :
    (st.step (.pass now)).header = st.updateHostStats.header := by
  obtain ⟨st', hst', -⟩ := processHostprogs_ok h now
  have hstep : step st (.pass now) = st' := by
    rw [step, hst']
  rw [hstep]
  exact header_ageHostprogs hst'

/-- A sum of rates is a float, if there is anything to add up. -/
theorem exists_format_sumRows (st : Stat) : ∃ text, Fragment.f2.format
    (.number (st.sumRows fun row => row.checkoutsPerSecond.map .float)) = .ok text := by
  have hfloats : (st.hostprogs.items.map Prod.snd).filterMap
      (fun row => row.checkoutsPerSecond.map Number.float) =
        ((st.hostprogs.items.map Prod.snd).filterMap HostProg.checkoutsPerSecond).map .float := by
    rw [List.map_filterMap]
  have hzero : Fragment.f2.format (.number (.int 0)) = .ok (floatText (Float.nearest 0)) := by
    rw [Fragment.format, if_neg (by decide +kernel)]
  rw [sumRows, hfloats]
  cases (st.hostprogs.items.map Prod.snd).filterMap HostProg.checkoutsPerSecond with
  | nil => exact ⟨_, hzero⟩
  | cons x xs =>
      obtain ⟨z, hz⟩ := exists_float_pySum x xs
      rw [hz]
      exact ⟨_, rfl⟩

/-- **The rate can always be formatted**, whatever messages and passes there have been. -/
theorem rateShown_run (events : List Event) : (run events).RateShown := by
  induction events using List.reverseRecOn with
  | nil => intro x hx; cases hx
  | append_singleton events event ih =>
      rw [run_append]
      cases event with
      | message m => exact ih.congr (header_message m _)
      | pass now =>
          refine RateShown.congr (fun x hx => ?_) (header_pass (keyed_run events) now)
          obtain rfl := Option.some.inj hx
          exact exists_format_sumRows _

end Stat

/-- The statistics of a run, laid out for the window. -/
theorem Settles.renderScreen_run (curses : Curses) (winsize : Winsize) (events : List Stat.Event)
    (now : ℚ) (kind : StatKind) :
    Settles curses (renderScreen winsize (Stat.run events) now
      (some (kind, calcXPositions winsize.cols kind.columns)))
      ((Stat.run events).TotalsShown ∧
        ∀ row ∈ kind.hostprogs (Stat.run events), row.Shown curses winsize.cols) := by
  refine (renderStats curses winsize now (suits_run events)).congr (and_congr_left fun _ => ?_)
  exact and_iff_left (Stat.rateShown_run events)

/-- **A frame is drawn** if and only if the totals and the counts in the rows are finite, and
in what is drawn of the names all colours are known and there is no null character. -/
theorem render_returns_iff {curses : Curses} (events : List Stat.Event) (winsize : Winsize)
    {serviceStr : Text} (hservice : Plain serviceStr) (now : ℚ) (kind : StatKind) {frame : Frame}
    (hcached : curses.Cached frame.colorPairs) :
    (∃ frame', render winsize serviceStr (some (kind, calcXPositions winsize.cols kind.columns))
      (Stat.run events) now frame = .ok () frame') ↔
        (Stat.run events).TotalsShown ∧
          ∀ row ∈ kind.hostprogs (Stat.run events), row.Shown curses winsize.cols := by
  obtain ⟨hreturns, hraises⟩ := Settles.render hservice
    (Settles.renderScreen_run curses winsize events now kind) frame hcached
  refine ⟨?_, fun h => (hreturns h).imp fun _ h => h.2⟩
  rintro ⟨frame', hframe'⟩
  by_contra hnot
  obtain ⟨e, frame'', hraise⟩ := hraises hnot
  cases hraise.symm.trans hframe'

/-- A plain name is always drawn. -/
theorem HostProg.shown_of_plain {row : HostProg} (hhostname : Plain row.hostname.toList)
    (hprogname : ∀ progname ∈ row.progname, Plain progname.toList)
    (hcounts : ∀ x ∈ row.counts, x.Finite) (curses : Curses) (cols : ℕ) :
    row.Shown curses cols where
  hostname := isSome_runs curses cols 0 none
    (knows_colored row.isConnected (knows_of_plain hhostname)) isColor_default
  progname := fun progname hmem => isSome_runs curses cols _ none
    (knows_of_plain (hprogname progname hmem)) isColor_default
  counts := hcounts

/-- A terminal as it is when connmon starts. -/
def startFrame (curses : Curses) : Frame := ⟨curses.colorPairs, fun _ _ => none⟩

/-- The report of a program with three processes. -/
def threeProcesses (host : String) : Message Number :=
  ⟨"count", "numprocs", "sqlalchemy", "web", host, 1000, 10, [.int 3]⟩

theorem row?_threeProcesses {host hostname : String} {progname : Option String} {row : HostProg}
    (h : (Stat.run [.message (threeProcesses host)]).row? hostname progname = some row) :
    row = { hostname := host, progname := "web", processCount := some (.int 3),
            maxProcessCount := .int 3, interval := 10, lastTime := 1000 } := by
  have hrun : Stat.run [.message (threeProcesses host)] =
      Stat.step {} (.message (threeProcesses host)) := rfl
  rw [hrun, Stat.row?_message] at h
  split at h
  · rw [← Option.some.inj h]
    rfl
  · cases progname <;> cases h

theorem render_returns_iff_oneRow : ∃ frame', render ⟨24, 80⟩ "[Direct host: ::1:25828]".toList
    (some (.prog, calcXPositions 80 progColumns)) (Stat.run [.message (threeProcesses "db1")]) 1001
    (startFrame ⟨fun i => 256 * i, 2 ^ 21, 0⟩) = .ok () frame' := by
  have hfinite : ∀ n : ℤ, (Number.int n).Finite := fun n => ⟨n, rfl⟩
  refine (render_returns_iff _ ⟨24, 80⟩ (by decide) 1001 .prog
    (Curses.cached_colorPairs _)).mpr ⟨Stat.totalsShown_of_zero rfl, fun row hrow => ?_⟩
  · obtain ⟨hostname, progname, hrow, -⟩ := mem_hostprogs_iff.mp hrow
    obtain rfl := row?_threeProcesses hrow
    refine HostProg.shown_of_plain (by decide) ?_ ?_ _ _
    · intro progname hmem
      obtain rfl := Option.some.inj hmem
      decide
    · simp [HostProg.counts, List.reduceOption, hfinite]

/-- The code at the beginning of a name, whether a `&` ends it or the name does. -/
def leadingCode? (name : Text) : Option Text :=
  ((segments textRe name).tokens.find? (· ≠ [])).bind colorCode?

/-- A name that begins with something that looks like a colour, and is none. -/
def BadName (name : Text) : Prop :=
  ∃ ccode, leadingCode? name = some ccode ∧ ccode ≠ ['d'] ∧ ¬IsColor ccode

example : BadName "#1".toList ∧ BadName "#Q&db1".toList ∧ ¬BadName "#G&db1".toList :=
  ⟨⟨['1'], by decide⟩, ⟨['Q'], by decide⟩, fun ⟨_, hcode, _, hcolor⟩ =>
    hcolor (Option.some.inj hcode ▸ by decide)⟩

/-- No tokens are drawn that begin with a colour that is not known. -/
theorem drawn_of_leading {curses : Curses} {cols dflt : ℕ} {tokens : List Text} {ccode : Text}
    (hleading : (tokens.find? (· ≠ [])).bind colorCode? = some ccode) (hdefault : ccode ≠ ['d'])
    (hcolor : curses.color? ccode = none) {currentColor : ℕ} :
    drawn curses cols dflt tokens 0 currentColor = none := by
  induction tokens with
  | nil => cases hleading
  | cons token tokens ih =>
      by_cases hempty : token = []
      · -- an empty token takes no room
        subst hempty
        rw [List.find?_cons_of_neg (by simp)] at hleading
        simp [drawn, show colorCode? ([] : Text) = none from rfl, ih hleading]
      · rw [List.find?_cons_of_pos (by simpa using hempty), Option.bind_some] at hleading
        rw [drawn, hleading]
        dsimp only
        rw [if_neg hdefault, hcolor, Option.bind_none]

theorem runs_of_badName {name : Text} (h : BadName name) (curses : Curses) (cols : ℕ)
    (green : Bool) : curses.runs cols 0 (colored green name) ['D'] none = none := by
  obtain ⟨ccode, hccode, hdefault, hcolor⟩ := h
  have hnone : curses.color? ccode = none := by
    rw [← Option.not_isSome_iff_eq_none, isSome_color?_iff]
    exact hcolor
  have htokens : (segments textRe (colored green name)).tokens =
      [] :: ['#', if green then 'G' else 'R'] :: (segments textRe name).tokens := by
    cases green <;> rfl
  have hempty : colorCode? ([] : Text) = none := rfl
  have hcode : ∀ char : Char, colorCode? ['#', char] = some [char] := fun _ => rfl
  rw [Curses.runs, htokens]
  refine Option.bind_eq_none_iff.mpr fun dflt _ => ?_
  change drawn curses cols dflt _ 0 dflt = none
  have hrest : ∀ color, drawn curses cols dflt (segments textRe name).tokens 0 color = none :=
    fun color => drawn_of_leading hccode hdefault hnone
  simp [drawn, hempty, hcode, hrest]

/-- The row of a host whose name looks like a colour cannot be written. -/
theorem exists_not_shown_of_badName (events : List Stat.Event) {m : Message Number}
    (hhost : BadName m.host.toList) {kind : StatKind}
    (hkind : m.pluginInstance = "host" ↔ kind = .host) (curses : Curses) (cols : ℕ) :
    ∃ row ∈ kind.hostprogs (Stat.run (events ++ [.message m])), ¬row.Shown curses cols := by
  obtain ⟨row, hrow⟩ : ∃ row, (Stat.run (events ++ [.message m])).row? m.host
      (Stat.rowName m.pluginInstance) = some row := by
    rw [Stat.run_append, Stat.row?_message]
    exact ⟨_, if_pos rfl⟩
  refine ⟨row, mem_hostprogs_iff.mpr ⟨_, _, hrow, ?_⟩, fun h => ?_⟩
  · rw [← hkind, Stat.rowName]
    by_cases hname : m.pluginInstance = "host" <;> simp [hname]
  · have hname : row.hostname = m.host := (Stat.keyed_run _ _ _ row hrow).1
    have hshown := h.hostname
    rw [hname, runs_of_badName hhost] at hshown
    cases hshown

/-- **One message** from a host whose name looks like a colour, and the display dies of the
next frame of the screen with its row, however large the window is. -/
theorem render_raises_of_badName {curses : Curses} (events : List Stat.Event) {m : Message Number}
    (hhost : BadName m.host.toList) (winsize : Winsize) {serviceStr : Text}
    (hservice : Plain serviceStr) (now : ℚ) {kind : StatKind}
    (hkind : m.pluginInstance = "host" ↔ kind = .host) {frame : Frame}
    (hcached : curses.Cached frame.colorPairs) :
    ∃ e frame', render winsize serviceStr (some (kind, calcXPositions winsize.cols kind.columns))
      (Stat.run (events ++ [.message m])) now frame = .error e frame' := by
  obtain ⟨row, hrow, hnot⟩ := exists_not_shown_of_badName events hhost hkind curses winsize.cols
  exact (Settles.render hservice (Settles.renderScreen_run curses winsize _ now kind) frame
    hcached).2 fun h => hnot (h.2 row hrow)

/-- A host called `#1` has sent one report. -/
theorem render_raises_of_badName_hash : ∃ e frame', render ⟨24, 80⟩
    "[Direct host: ::1:25828]".toList (some (.prog, calcXPositions 80 progColumns))
    (Stat.run ([] ++ [.message (threeProcesses "#1")])) 1001
    (startFrame ⟨fun i => 256 * i, 2 ^ 21, 0⟩) = .error e frame' :=
  render_raises_of_badName [] ⟨['1'], by decide⟩ ⟨24, 80⟩ (by decide) 1001
    (by decide) (Curses.cached_colorPairs _)

end SqlalchemyCollectd
