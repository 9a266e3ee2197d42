import Mathlib.Data.List.Basic
import Mathlib.Order.Monotone.Basic
import Mathlib.Order.WellFounded
import Solo.Proofs.Spans

/-!
# Where tokens are taken

A token is looked for at one place after the other, and behind an occurrence that is glued to a
longer word the search goes on at its end. So the first occurrence that fits is taken, unless it
starts inside one that does not fit. `Hides` says which tokens can stand like that.
-/

namespace Solo

namespace Cursor

variable {token read rest : List Char} {k : Nat}

/-! ### Occurrences -/

/-- The cursor between the part of a text that was read and the rest. -/
def between (module : ModuleId) (read rest : List Char) : Cursor :=
  ⟨module, byteLength read, read.getLast?, rest⟩

/-- A token stands `k` characters ahead. -/
def Occurs (token rest : List Char) (k : Nat) : Prop := token <+: rest.drop k

instance (token rest : List Char) (k : Nat) : Decidable (Occurs token rest k) :=
  inferInstanceAs (Decidable (token <+: rest.drop k))

/-- A token stands `k` characters ahead and is not glued to a word character there. -/
structure Fits (token read rest : List Char) (k : Nat) : Prop where
  occurs : Occurs token rest k
  clean : fits token (read ++ rest.take k).getLast? (rest.drop (k + token.length)).head? = true

instance (token read rest : List Char) (k : Nat) : Decidable (Fits token read rest k) :=
  decidable_of_iff (Occurs token rest k ∧
      fits token (read ++ rest.take k).getLast? (rest.drop (k + token.length)).head? = true)
    ⟨fun both => ⟨both.1, both.2⟩, fun fit => ⟨fit.occurs, fit.clean⟩⟩

def takeAt (module : ModuleId) (token read rest : List Char) (k : Nat) : Span × Cursor :=
  let lo := byteLength (read ++ rest.take k)
  (⟨lo, lo + byteLength token, module, Nat.le_add_right ..⟩,
    between module (read ++ rest.take k ++ token) (rest.drop (k + token.length)))

/-- Among the places `P` the first is taken, and if there is none, the answer is the empty span and
the cursor stays. -/
structure TakesFirst (module : ModuleId) (token read rest : List Char) (P : Nat → Prop) : Prop where
  found : ∀ k, P k → (∀ j < k, ¬P j) →
    (between module read rest).take token = takeAt module token read rest k
  missing : (∀ k, ¬P k) → (between module read rest).take token =
    ((between module read rest).point, between module read rest)

/-! ### The places that are tried -/

/-- The place that is tried after `k`: behind an occurrence, or one character on. -/
def hop (token rest : List Char) (k : Nat) : Nat :=
  if Occurs token rest k then k + token.length else k + 1

/-- A place at which the token is looked for if it fits nowhere before. -/
def Tried (token rest : List Char) (k : Nat) : Prop := ∃ n, (hop token rest)^[n] 0 = k

theorem lt_hop (solid : token ≠ []) (k : Nat) : k < hop token rest k := by
  have positive := List.length_pos_iff.mpr solid
  unfold hop
  split <;> omega

theorem hops_strictMono (solid : token ≠ []) :
    StrictMono fun n => (hop token rest)^[n] 0 :=
  strictMono_nat_of_lt_succ fun n => by
    simp only [Function.iterate_succ_apply']
    exact lt_hop solid _

/-- A place that is not tried is inside an occurrence at a place that is. -/
theorem inside_of_not_tried (solid : token ≠ []) (skipped : ¬Tried token rest k) :
    ∃ j, Tried token rest j ∧ Occurs token rest j ∧ j < k ∧ k < j + token.length := by
  by_contra outside
  have before : ∀ n, (hop token rest)^[n] 0 < k := by
    intro n
    induction n with
    | zero => exact Nat.pos_of_ne_zero fun same => skipped ⟨0, same.symm⟩
    | succ n ih =>
      refine Nat.lt_of_le_of_ne ?_ fun same => skipped ⟨n + 1, same⟩
      rw [Function.iterate_succ_apply', hop]
      split
      · next occurs =>
        exact Nat.le_of_not_lt fun inside => outside ⟨_, ⟨n, rfl⟩, occurs, ih, inside⟩
      · exact ih
  exact absurd (before k) (Nat.not_lt.mpr (hops_strictMono solid).le_apply)

/-! ### The search -/

def seekAt (token read rest : List Char) (k : Nat) : Option Hit :=
  seek token 0 (read ++ rest.take k).getLast? (byteLength (read ++ rest.take k)) (rest.drop k)

/-- Passing over characters is the search behind them. -/
theorem seek_skip {before : Option Char} {pos n : Nat} {cs : List Char} (room : n ≤ cs.length) :
    seek token n before pos cs =
      seek token 0 ((cs.take n).getLast?.or before) (pos + byteLength (cs.take n)) (cs.drop n) := by
  induction n generalizing before pos cs with
  | zero => simp [byteLength]
  | succ n ih =>
    cases cs with
    | nil => cases room
    | cons c cs =>
      have last : (c :: cs.take n).getLast?.or before = (cs.take n).getLast?.or (some c) := by
        cases seen : (cs.take n).getLast? <;> simp [List.getLast?_cons, seen]
      rw [seek, if_neg (Nat.succ_ne_zero n), Nat.add_sub_cancel, ih (Nat.le_of_succ_le_succ room),
        List.take_succ_cons, List.drop_succ_cons, last, byteLength, Nat.add_assoc]

theorem seekAt_add {n : Nat} (room : k + n ≤ rest.length) :
    seek token n (read ++ rest.take k).getLast? (byteLength (read ++ rest.take k)) (rest.drop k) =
      seekAt token read rest (k + n) := by
  have further : rest.take (k + n) = rest.take k ++ (rest.drop k).take n := List.take_add
  rw [seek_skip (by rw [List.length_drop]; omega), seekAt, further, ← List.append_assoc,
    List.getLast?_append (l := read ++ rest.take k), byteLength_append (read ++ rest.take k),
    List.drop_drop]

theorem Occurs.room (occurs : Occurs token rest k) (solid : token ≠ []) :
    k + token.length ≤ rest.length := by
  have positive := List.length_pos_iff.mpr solid
  have short := occurs.length_le
  rw [List.length_drop] at short
  omega

theorem seekAt_end (solid : token ≠ []) (past : rest.length ≤ k) :
    seekAt token read rest k = none := by
  rw [seekAt, List.drop_eq_nil_of_le past, seek, if_neg (fun empty => solid empty.2)]

theorem seekAt_fits (solid : token ≠ []) (fit : Fits token read rest k) :
    seekAt token read rest k = some ⟨byteLength (read ++ rest.take k),
      (read ++ rest.take k ++ token).getLast?, rest.drop (k + token.length)⟩ := by
  have clean := fit.clean
  rw [← List.drop_drop] at clean
  have occurs := List.isPrefixOf_iff_prefix.mpr fit.occurs
  have last : (read ++ rest.take k ++ token).getLast? =
      token.getLast?.or (read ++ rest.take k).getLast? := List.getLast?_append
  rw [seekAt, ← List.drop_drop, last]
  cases ahead : rest.drop k with
  | nil =>
    rw [ahead] at occurs
    exact absurd (List.prefix_nil.mp (List.isPrefixOf_iff_prefix.mp occurs)) solid
  | cons c cs =>
    rw [ahead] at clean occurs
    simp only [seek, if_true, occurs, clean]

/-- A place where the token does not fit is left for the next one. -/
theorem seekAt_hop (solid : token ≠ []) (glued : ¬Fits token read rest k) :
    seekAt token read rest k = seekAt token read rest (hop token rest k) := by
  by_cases past : rest.length ≤ k
  · rw [seekAt_end solid past, seekAt_end solid (Nat.le_trans past (Nat.le_of_lt (lt_hop solid k)))]
  have inside : k < rest.length := Nat.lt_of_not_le past
  have positive := List.length_pos_iff.mpr solid
  -- the search reads the next character, and then passes over the others of an occurrence
  have step : ∀ n, k + (n + 1) ≤ rest.length →
      seek token n (some rest[k]) (byteLength (read ++ rest.take k) + rest[k].utf8Size)
        (rest.drop (k + 1)) = seekAt token read rest (k + (n + 1)) := by
    intro n room
    have next : seek token (n + 1) (read ++ rest.take k).getLast?
        (byteLength (read ++ rest.take k)) (rest.drop k) =
          seekAt token read rest (k + (n + 1)) := seekAt_add room
    rw [List.drop_eq_getElem_cons inside, seek, if_neg (Nat.succ_ne_zero n)] at next
    exact next
  by_cases occurs : Occurs token rest k
  · have unclean : fits token (read ++ rest.take k).getLast?
        ((rest.drop k).drop token.length).head? = false := by
      rw [List.drop_drop]
      exact Bool.eq_false_iff.mpr fun clean => glued ⟨occurs, clean⟩
    have found := List.isPrefixOf_iff_prefix.mpr occurs
    rw [List.drop_eq_getElem_cons inside] at found unclean
    rw [hop, if_pos occurs, seekAt, List.drop_eq_getElem_cons inside, seek]
    simp only [if_true, found, unclean, Bool.false_eq_true, if_false]
    rw [step (token.length - 1) (by rw [Nat.sub_add_cancel positive]; exact occurs.room solid),
      Nat.sub_add_cancel positive]
  · have missed : token.isPrefixOf (rest[k] :: rest.drop (k + 1)) = false := by
      rw [← List.drop_eq_getElem_cons inside]
      exact Bool.eq_false_iff.mpr fun found => occurs (List.isPrefixOf_iff_prefix.mp found)
    rw [hop, if_neg occurs, seekAt, List.drop_eq_getElem_cons inside, seek]
    simp only [if_true, missed, Bool.false_eq_true, if_false]
    exact step 0 inside

/-- The search comes to every place before which the token fits at no place that is tried. -/
theorem seekAt_hops (solid : token ≠ []) {n : Nat}
    (none : ∀ m < n, ¬Fits token read rest ((hop token rest)^[m] 0)) :
    seekAt token read rest 0 = seekAt token read rest ((hop token rest)^[n] 0) := by
  induction n with
  | zero => rfl
  | succ n ih =>
    rw [ih fun m before => none m (Nat.lt_succ_of_lt before), Function.iterate_succ_apply',
      seekAt_hop solid (none n (Nat.lt_succ_self n))]

/-! ### The answer -/

/-- Of the places that are tried, the first at which the token fits is taken. -/
theorem takesFirst_tried (module : ModuleId) (solid : token ≠ []) :
    TakesFirst module token read rest fun k => Tried token rest k ∧ Fits token read rest k where
  found k here first := by
    obtain ⟨⟨n, place⟩, fit⟩ := here
    have start : seekAt token read rest 0 = seekAt token read rest k := by
      rw [← place]
      exact seekAt_hops solid fun m before earlier =>
        first _ (place ▸ hops_strictMono solid before) ⟨⟨m, rfl⟩, earlier⟩
    rw [seekAt_fits solid fit] at start
    simp only [seekAt, List.take_zero, List.append_nil, List.drop_zero] at start
    simp only [take, between, start, takeAt, byteLength_append]
  missing none := by
    have far : rest.length ≤ (hop token rest)^[rest.length] 0 :=
      (hops_strictMono solid).le_apply
    have start : seekAt token read rest 0 =
        seekAt token read rest ((hop token rest)^[rest.length] 0) :=
      seekAt_hops solid fun m _ fit => none _ ⟨⟨m, rfl⟩, fit⟩
    rw [seekAt_end solid far] at start
    simp only [seekAt, List.take_zero, List.append_nil, List.drop_zero] at start
    simp only [take, between, start]

/-- Places give different answers, and none of them is to stay. -/
theorem takeAt_inj (module : ModuleId) {j : Nat} (first : j + token.length ≤ rest.length)
    (second : k + token.length ≤ rest.length)
    (same : takeAt module token read rest j = takeAt module token read rest k) : j = k := by
  have left := congrArg (·.2.rest.length) same
  simp only [takeAt, between, List.length_drop] at left
  omega

theorem takeAt_ne_stay (module : ModuleId) (solid : token ≠ [])
    (room : k + token.length ≤ rest.length) :
    takeAt module token read rest k ≠
      ((between module read rest).point, between module read rest) := by
  intro same
  have positive := List.length_pos_iff.mpr solid
  have left := congrArg (·.2.rest.length) same
  simp only [takeAt, between, List.length_drop] at left
  omega

/-- The first occurrence that fits is taken exactly if it is at a place that is tried. -/
theorem takesFirst_iff (module : ModuleId) (solid : token ≠ []) :
    TakesFirst module token read rest (Fits token read rest) ↔
      ∀ k, Fits token read rest k → (∀ j < k, ¬Fits token read rest j) → Tried token rest k := by
  have answer : TakesFirst module token read rest fun k =>
      Tried token rest k ∧ Fits token read rest k := takesFirst_tried module solid
  constructor
  · intro takes k fit first
    have room := fit.occurs.room solid
    by_contra skipped
    by_cases other : ∃ j, Tried token rest j ∧ Fits token read rest j
    · obtain ⟨j, here, least⟩ := WellFounded.has_min Nat.lt_wfRel.wf
        {j | Tried token rest j ∧ Fits token read rest j} other
      have both := (takes.found k fit first).symm.trans
        (answer.found j here fun i before fits => least i fits before)
      exact skipped (takeAt_inj module room (here.2.occurs.room solid) both ▸ here.1)
    · exact takeAt_ne_stay module solid room
        ((takes.found k fit first).symm.trans (answer.missing fun j here => other ⟨j, here⟩))
  · intro tried
    exact ⟨fun k fit first => answer.found k ⟨tried k fit first, fit⟩ fun j before here =>
      first j before here.2, fun none => answer.missing fun k here => none k here.2⟩

/-! ### Tokens that hide each other -/

/-- A token that can start inside an occurrence of itself and fit there although the other one does
not. The other one ends in the front of this one, `back`, and in its own front, `front`, is the
character before this one. -/
def Hides (token : List Char) : Prop :=
  ∃ front back, token = front ++ back ∧ front ≠ [] ∧ back ≠ [] ∧ back <+: token ∧
    (token.head?.any Text.isWord = true → front.getLast?.any Text.isWord = false) ∧
    (token.head?.any Text.isWord = true ∨ token.getLast?.any Text.isWord = true ∧
      (token.drop back.length).head?.any Text.isWord = true)

theorem fits_eq_true {before after : Option Char} : fits token before after = true ↔
    (token.head?.any Text.isWord = true → before.any Text.isWord = false) ∧
      (token.getLast?.any Text.isWord = true → after.any Text.isWord = false) := by
  simp only [fits, Bool.and_eq_true, Bool.not_eq_true', Bool.and_eq_false_imp]

/-- The character before a place inside an occurrence is one of the token. -/
theorem Occurs.last_inside {d : Nat} (occurs : Occurs token rest k) (some : token.take d ≠ [])
    (inside : d ≤ token.length) :
    (read ++ rest.take (k + d)).getLast? = (token.take d).getLast? := by
  obtain ⟨after, ahead⟩ := occurs
  rw [List.take_add, ← ahead, List.take_append_of_le_length inside, ← List.append_assoc,
    List.getLast?_append_of_ne_nil _ some]

/-- The character behind an occurrence is, if another one starts inside it, one of the token. -/
theorem Occurs.next_inside {d : Nat} (occurs : Occurs token rest (k + d)) (some : 0 < d)
    (inside : d < token.length) :
    (rest.drop (k + token.length)).head? = (token.drop (token.drop d).length).head? := by
  obtain ⟨after, ahead⟩ := occurs
  have rejoined : k + token.length = k + d + (token.length - d) := by omega
  rw [rejoined, ← List.drop_drop, ← ahead, List.length_drop,
    List.drop_append_of_le_length (Nat.sub_le ..)]
  exact List.head?_append_of_ne_nil _ fun empty => by
    have := List.drop_eq_nil_iff.mp empty
    omega

/-- The part of an occurrence from the start of a later one on is a front of the token. -/
theorem Occurs.border {d : Nat} (first : Occurs token rest k) (second : Occurs token rest (k + d))
    (inside : d ≤ token.length) : token.drop d <+: token := by
  obtain ⟨after, ahead⟩ := first
  rw [Occurs, ← List.drop_drop, ← ahead, List.drop_append_of_le_length inside] at second
  exact List.prefix_of_prefix_length_le (List.prefix_append _ after) second (by simp)

/-- A token that fits inside an occurrence that does not fit hides. -/
theorem hides_of_inside {j : Nat} (first : Occurs token rest j) (glued : ¬Fits token read rest j)
    (fit : Fits token read rest k) (behind : j < k) (inside : k < j + token.length) :
    Hides token := by
  obtain ⟨d, rfl⟩ := Nat.exists_eq_add_of_le (Nat.le_of_lt behind)
  have positive : 0 < d := by omega
  have short : d < token.length := by omega
  have some : token.take d ≠ [] := fun empty => by
    rcases List.take_eq_nil_iff.mp empty with zero | none
    · omega
    · simp [none] at short
  have clean := (fits_eq_true.mp fit.clean).1
  rw [first.last_inside some (Nat.le_of_lt short)] at clean
  have unclean := fun clean => glued ⟨first, clean⟩
  rw [fits_eq_true, fit.occurs.next_inside positive short] at unclean
  refine ⟨token.take d, token.drop d, (List.take_append_drop d token).symm, some, ?_,
    first.border fit.occurs (Nat.le_of_lt short), clean, ?_⟩
  · exact fun empty => absurd (List.drop_eq_nil_iff.mp empty) (Nat.not_le.mpr short)
  · by_contra neither
    rw [not_or, not_and] at neither
    exact unclean ⟨fun opens => absurd opens neither.1,
      fun closes => Bool.eq_false_iff.mpr (neither.2 closes)⟩

/-- In some text a token that hides is not taken where it first fits. -/
theorem Hides.missed (hides : Hides token) (module : ModuleId) : ∃ read rest,
    ¬TakesFirst module token read rest (Fits token read rest) := by
  obtain ⟨front, back, split, some, more, border, clean, unclean⟩ := hides
  have solid : token ≠ [] := split ▸ List.append_ne_nil_of_left_ne_nil some _
  have longer : front.length < token.length := by
    have positive := List.length_pos_iff.mpr more
    rw [split, List.length_append]
    omega
  refine ⟨['a'], front ++ token, fun takes => ?_⟩
  -- the token stands at the start of the text and again behind its front
  have first : Occurs token (front ++ token) 0 := by
    have fronted := (List.prefix_append_right_inj front).mpr border
    rwa [← split] at fronted
  have glued : ¬Fits token ['a'] (front ++ token) 0 := by
    intro fit
    obtain ⟨before, after⟩ := fits_eq_true.mp fit.clean
    rcases unclean with opens | ⟨closes, word⟩
    · exact absurd (before opens) (by
        rw [List.take_zero, List.append_nil]
        decide)
    · have length : 0 + token.length = front.length + back.length := by
        rw [Nat.zero_add, split, List.length_append]
      have tail : (front ++ token).drop (0 + token.length) = token.drop back.length := by
        rw [length, ← List.drop_drop, List.drop_left]
      rw [tail, word] at after
      exact absurd (after closes) (by decide)
  have fit : Fits token ['a'] (front ++ token) front.length := by
    refine ⟨⟨[], by rw [List.drop_left, List.append_nil]⟩, ?_⟩
    refine fits_eq_true.mpr ⟨fun opens => ?_, fun _ => ?_⟩
    · rw [List.take_left, List.getLast?_append_of_ne_nil _ some]
      exact clean opens
    · rw [← List.drop_drop, List.drop_left, List.drop_length]
      rfl
  obtain ⟨k, here, least⟩ := WellFounded.has_min Nat.lt_wfRel.wf
    {k | Fits token ['a'] (front ++ token) k} ⟨_, fit⟩
  obtain ⟨n, place⟩ := (takesFirst_iff module solid).mp takes k here fun j before fits =>
    least j fits before
  cases n with
  | zero =>
    obtain rfl : 0 = k := place
    exact glued here
  | succ n =>
    have jump : token.length ≤ k := by
      have climbs : StrictMono fun n => (hop token (front ++ token))^[n] 0 := hops_strictMono solid
      have reach := climbs.monotone (Nat.le_add_left 1 n)
      simp only [place, Function.iterate_one, hop, if_pos first, Nat.zero_add] at reach
      exact reach
    exact least _ fit (Nat.lt_of_lt_of_le longer jump)

/-- A token of word characters only does not hide. -/
theorem not_hides_of_words (words : ∀ c ∈ token, Text.isWord c = true) : ¬Hides token := by
  rintro ⟨front, back, rfl, some, -, -, clean, -⟩
  obtain ⟨c, cs, rfl⟩ := List.exists_cons_of_ne_nil some
  have last := List.getLast?_eq_some_getLast some
  have opens : ((c :: cs) ++ back).head?.any Text.isWord = true := words c List.mem_cons_self
  have word := words _ (List.mem_append_left back (List.getLast_mem some))
  rw [last, Option.any_some, word] at clean
  exact absurd (clean opens) (by decide)

/-- Taking a token: of the places that are tried, the first at which it fits is taken. That is the
next occurrence that is not glued to a word unless this one starts inside an occurrence that is, and
it is so in every text exactly for the tokens that do not hide. -/
theorem take_next_occurrence (solid : token ≠ []) :
    (∀ module read rest, TakesFirst module token read rest fun k =>
      Tried token rest k ∧ Fits token read rest k) ∧
    (∀ module read rest, TakesFirst module token read rest (Fits token read rest) ↔
      ∀ k, Fits token read rest k → (∀ j < k, ¬Fits token read rest j) → Tried token rest k) ∧
    ((∀ module read rest, TakesFirst module token read rest (Fits token read rest)) ↔
      ¬Hides token) := by
  refine ⟨fun module _ _ => takesFirst_tried module solid,
    fun module _ _ => takesFirst_iff module solid, fun takes hides => ?_,
    fun plain module read rest => (takesFirst_iff module solid).mpr fun k fit first => ?_⟩
  · obtain ⟨read, rest, missed⟩ := hides.missed default
    exact missed (takes _ read rest)
  · by_contra skipped
    obtain ⟨j, -, occurs, behind, inside⟩ := inside_of_not_tried solid skipped
    exact plain (hides_of_inside occurs (first j behind) fit behind inside)

theorem take_next_occurrence_word : "x".toList ≠ [] ∧
    (between 0 "max ".toList "+ x".toList).take "x".toList =
      takeAt 0 "x".toList "max ".toList "+ x".toList 2 := by
  have solid : "x".toList ≠ [] := by decide
  have plain : ¬Hides "x".toList := by
    refine not_hides_of_words fun c member => ?_
    obtain rfl : c = 'x' := List.mem_singleton.mp member
    decide
  have takes := (take_next_occurrence solid).2.2.mpr plain 0 "max ".toList "+ x".toList
  exact ⟨solid, takes.found 2 (by decide) (by decide)⟩

/-- The number `1.1` stands glued to a name and again from its own last digit on, where nothing is
glued to it, and is not found. -/
theorem hidden_token_missed :
    Fits "1.1".toList [] "x1.1.1".toList 3 ∧ (∀ j < 3, ¬Fits "1.1".toList [] "x1.1.1".toList j) ∧
    (start 0 "x1.1.1").take "1.1".toList = ((start 0 "x1.1.1").point, start 0 "x1.1.1") ∧
    ¬TakesFirst 0 "1.1".toList [] "x1.1.1".toList (Fits "1.1".toList [] "x1.1.1".toList) := by
  have fit : Fits "1.1".toList [] "x1.1.1".toList 3 := by decide
  have first : ∀ j < 3, ¬Fits "1.1".toList [] "x1.1.1".toList j := by decide
  have stays : (start 0 "x1.1.1").take "1.1".toList =
      ((start 0 "x1.1.1").point, start 0 "x1.1.1") := by rfl
  exact ⟨fit, first, stays, fun takes => takeAt_ne_stay 0 (by decide) (fit.occurs.room (by decide))
    ((takes.found 3 fit first).symm.trans stays)⟩

end Cursor
end Solo
