import Solo.Syntax.Anchor
import Solo.Proofs.Trees

/-!
# Layout of anchored trees

Anchoring numbers the nodes of a tree one after the other, and reads its source text from left to
right. `Laid b ns b'` says what this leaves behind: the nodes `ns`, built from the state `b` to the
state `b'`, have consecutive numbers, every node's span contains the spans below it, and a node
that comes before everything below another one ends before that one starts.
-/

namespace Solo

/-- Whether a span lies inside another one, as a proposition. -/
def Span.Inside (s t : Span) : Prop := t.lo ≤ s.lo ∧ s.hi ≤ t.hi

theorem Span.within_iff {s t : Span} : s.within t = true ↔ s.Inside t := by
  simp [within, Inside]

theorem Span.Inside.trans {s t u : Span} (first : s.Inside t) (second : t.Inside u) : s.Inside u :=
  ⟨Nat.le_trans second.1 first.1, Nat.le_trans first.2 second.2⟩

theorem Span.inside_cover_left (s t : Span) : s.Inside (s.cover t) :=
  ⟨Nat.min_le_left .., Nat.le_max_left ..⟩

theorem Span.inside_cover_right (s t : Span) : t.Inside (s.cover t) :=
  ⟨Nat.min_le_right .., Nat.le_max_right ..⟩

theorem Span.inside_coverAll (s : Span) (rest : List Span) :
    s.Inside (s.coverAll rest) ∧ ∀ t ∈ rest, t.Inside (s.coverAll rest) := by
  induction rest generalizing s with
  | nil => exact ⟨⟨Nat.le_refl _, Nat.le_refl _⟩, by simp⟩
  | cons t rest ih =>
    obtain ⟨first, others⟩ := ih (s.cover t)
    refine ⟨(s.inside_cover_left t).trans first, ?_⟩
    intro u member
    rcases List.mem_cons.mp member with rfl | later
    · exact (s.inside_cover_right u).trans first
    · exact others u later

theorem Span.coverAll_bounds {s : Span} {rest : List Span} {lo hi : Nat}
    (first : lo ≤ s.lo ∧ s.hi ≤ hi) (others : ∀ t ∈ rest, lo ≤ t.lo ∧ t.hi ≤ hi) :
    lo ≤ (s.coverAll rest).lo ∧ (s.coverAll rest).hi ≤ hi := by
  induction rest generalizing s with
  | nil => exact first
  | cons t rest ih =>
    have head := others t List.mem_cons_self
    exact ih ⟨Nat.le_min.mpr ⟨first.1, head.1⟩, Nat.max_le.mpr ⟨first.2, head.2⟩⟩
      fun u member => others u (List.mem_cons_of_mem t member)

/-! ### Reading -/

theorem Cursor.le_seek {token : List Char} {skip pos : Nat} {before : Option Char}
    {cs : List Char} {hit : Hit} (found : seek token skip before pos cs = some hit) :
    pos ≤ hit.lo := by
  induction cs generalizing skip before pos with
  | nil =>
    unfold seek at found
    split at found
    · cases found
      exact Nat.le_refl _
    · cases found
  | cons c cs ih =>
    have later : ∀ {k b}, seek token k b (pos + c.utf8Size) cs = some hit → pos ≤ hit.lo :=
      fun h => Nat.le_trans (Nat.le_add_right ..) (ih h)
    unfold seek at found
    split at found
    · split at found
      · dsimp only at found
        split at found
        · cases found
          exact Nat.le_refl _
        · exact later found
      · exact later found
    · exact later found

theorem Cursor.take_bounds (c : Cursor) (token : List Char) :
    c.pos ≤ (c.take token).1.lo ∧ (c.take token).1.hi ≤ (c.take token).2.pos := by
  unfold take
  split
  · next hit found => exact ⟨le_seek found, Nat.le_refl _⟩
  · exact ⟨Nat.le_refl _, Nat.le_refl _⟩

/-! ### What building a list of nodes leaves behind -/

def Node.number (n : Node Mark) : Nat := n.mark.id

def Builder.count (b : Builder) : Nat := b.nextId

abbrev Builder.next (b : Builder) : Builder := { b with nextId := b.nextId + 1 }

theorem Builder.count_next (b : Builder) : b.next.count = b.count + 1 := rfl

structure Laid (b : Builder) (ns : List (Node Mark)) (b' : Builder) : Prop where
  count : b'.count = b.count + ns.length
  ids : ns.map Node.number = List.range' b.count ns.length
  pos : b.cursor.pos ≤ b'.cursor.pos
  bounds : ∀ n ∈ ns, b.cursor.pos ≤ n.mark.span.lo ∧ n.mark.span.hi ≤ b'.cursor.pos
  nested : ∀ n ∈ ns, ∀ k ∈ n.below, k.mark.span.Inside n.mark.span
  order : ∀ k ∈ ns, ∀ n ∈ ns, k.number + n.below.length ≤ n.number →
    k.mark.span.hi ≤ n.mark.span.lo

namespace Laid

variable {b b₁ b₂ : Builder} {ns ks : List (Node Mark)}

theorem id_bounds (laid : Laid b ns b₁) {n : Node Mark} (member : n ∈ ns) :
    b.count ≤ n.number ∧ n.number < b.count + ns.length := by
  have inside : n.number ∈ ns.map Node.number := List.mem_map.mpr ⟨n, member, rfl⟩
  rw [laid.ids] at inside
  simpa using inside

theorem nil (b : Builder) : Laid b [] b where
  count := rfl
  ids := rfl
  pos := Nat.le_refl _
  bounds := by simp
  nested := by simp
  order := by simp

theorem append (first : Laid b ns b₁) (second : Laid b₁ ks b₂) : Laid b (ns ++ ks) b₂ where
  count := by
    have := first.count
    have := second.count
    simp only [List.length_append]
    omega
  ids := by
    rw [List.map_append, first.ids, second.ids, first.count, List.length_append,
      List.range'_append_1]
  pos := Nat.le_trans first.pos second.pos
  bounds := by
    intro n member
    have := first.pos
    have := second.pos
    rcases List.mem_append.mp member with old | new
    · have := first.bounds n old
      omega
    · have := second.bounds n new
      omega
  nested := by
    intro n member
    rcases List.mem_append.mp member with old | new
    · exact first.nested n old
    · exact second.nested n new
  order := by
    intro k hk n hn apart
    have step := first.count
    rcases List.mem_append.mp hk with kOld | kNew
    · rcases List.mem_append.mp hn with nOld | nNew
      · exact first.order k kOld n nOld apart
      · exact Nat.le_trans (first.bounds k kOld).2 (second.bounds n nNew).1
    · rcases List.mem_append.mp hn with nOld | nNew
      · have := (second.id_bounds kNew).1
        have := (first.id_bounds nOld).2
        omega
      · exact second.order k kNew n nNew apart

/-- Adds a node above a list of nodes. -/
theorem snoc (parts : Laid b ns b₁) {n : Node Mark} (root : n.below = ns ++ [n])
    (number : n.number = b₁.count)
    (bounds : b.cursor.pos ≤ n.mark.span.lo ∧ n.mark.span.hi ≤ b₁.cursor.pos)
    (covers : ∀ k ∈ ns, k.mark.span.Inside n.mark.span) :
    Laid b (ns ++ [n]) b₁.next where
  count := by
    have := parts.count
    rw [b₁.count_next, List.length_append, List.length_singleton]
    omega
  ids := by
    rw [List.map_append, parts.ids, List.map_singleton, number, parts.count, List.length_append,
      List.length_singleton, List.range'_concat, Nat.one_mul]
  pos := parts.pos
  bounds := by
    intro k member
    rcases List.mem_append.mp member with inner | last
    · exact parts.bounds k inner
    · obtain rfl := List.mem_singleton.mp last
      exact bounds
  nested := by
    intro k member
    rcases List.mem_append.mp member with inner | last
    · exact parts.nested k inner
    · obtain rfl := List.mem_singleton.mp last
      intro j below
      rw [root] at below
      rcases List.mem_append.mp below with inner | self
      · exact covers j inner
      · obtain rfl := List.mem_singleton.mp self
        exact ⟨Nat.le_refl _, Nat.le_refl _⟩
  order := by
    intro k hk j hj apart
    have size := parts.count
    rcases List.mem_append.mp hj with jInner | jLast
    · rcases List.mem_append.mp hk with kInner | kLast
      · exact parts.order k kInner j jInner apart
      · obtain rfl := List.mem_singleton.mp kLast
        have := (parts.id_bounds jInner).2
        omega
    · obtain rfl := List.mem_singleton.mp jLast
      rw [root, List.length_append, List.length_singleton] at apart
      rcases List.mem_append.mp hk with kInner | kLast
      · have := (parts.id_bounds kInner).1
        omega
      · obtain rfl := List.mem_singleton.mp kLast
        omega

theorem leaf {n : Node Mark} (alone : n.below = [n]) (number : n.number = b.count)
    (bounds : b.cursor.pos ≤ n.mark.span.lo ∧ n.mark.span.hi ≤ b₁.cursor.pos)
    (next : b₁.count = b.count + 1) : Laid b [n] b₁ where
  count := next
  ids := by simp [number]
  pos := by
    have := n.mark.span.lo_le_hi
    omega
  bounds := by simpa using bounds
  nested := by
    intro k member
    obtain rfl := List.mem_singleton.mp member
    rw [alone]
    intro j below
    obtain rfl := List.mem_singleton.mp below
    exact ⟨Nat.le_refl _, Nat.le_refl _⟩
  order := by
    intro k hk j hj apart
    obtain rfl := List.mem_singleton.mp hk
    obtain rfl := List.mem_singleton.mp hj
    rw [alone, List.length_singleton] at apart
    omega

/-- A node's number says how many nodes come before it. -/
theorem number_eq (laid : Laid b ns b₁) (before after : List (Node Mark)) {n : Node Mark}
    (split : ns = before ++ n :: after) : n.number = b.count + before.length := by
  have ids := congrArg (·[before.length]?) laid.ids
  simp [split] at ids
  exact ids

/-- Of two stretches that follow each other, the text of the second one comes later. -/
theorem before (laid : Laid b ns b₁) {ks ls : List (Node Mark)} (inside : ks ++ ls <:+: ns)
    (closed : Closed ls) {k n : Node Mark} (first : k ∈ ks) (second : n ∈ ls) :
    k.mark.span.hi ≤ n.mark.span.lo := by
  have member := inside.subset
  refine laid.order k (member (List.mem_append_left _ first)) n
    (member (List.mem_append_right _ second)) ?_
  obtain ⟨pre, post, split⟩ := inside
  obtain ⟨ks₁, ks₂, rfl⟩ := List.append_of_mem first
  obtain ⟨ls₁, ls₂, rfl⟩ := closed n second
  obtain ⟨inner, below⟩ := n.below_suffix
  rw [← below] at split ⊢
  have numberK := laid.number_eq (n := k) (pre ++ ks₁)
    (ks₂ ++ (ls₁ ++ (inner ++ [n]) ++ ls₂) ++ post) (by rw [← split]; simp)
  have numberN := laid.number_eq (n := n) (pre ++ (ks₁ ++ k :: ks₂) ++ ls₁ ++ inner)
    (ls₂ ++ post) (by rw [← split]; simp)
  simp only [List.length_append, List.length_cons, List.length_nil] at numberK numberN ⊢
  omega

end Laid

/-- A list of nodes with the spans of its topmost ones. -/
structure Rooted (b : Builder) (ns : List (Node Mark)) (roots : List Span) (b' : Builder) : Prop
    extends Laid b ns b' where
  ends : ∀ s ∈ roots, b.cursor.pos ≤ s.lo ∧ s.hi ≤ b'.cursor.pos
  covered : ∀ n ∈ ns, ∃ s ∈ roots, n.mark.span.Inside s

namespace Rooted

variable {b b₁ b₂ b₃ : Builder} {ns ks js : List (Node Mark)} {roots roots' roots'' : List Span}

theorem nil (b : Builder) : Rooted b [] [] b where
  toLaid := .nil b
  ends := by simp
  covered := by simp

theorem append (first : Rooted b ns roots b₁) (second : Rooted b₁ ks roots' b₂) :
    Rooted b (ns ++ ks) (roots ++ roots') b₂ where
  toLaid := first.toLaid.append second.toLaid
  ends := by
    intro s member
    have := first.pos
    have := second.pos
    rcases List.mem_append.mp member with old | new
    · have := first.ends s old
      omega
    · have := second.ends s new
      omega
  covered := by
    intro n member
    rcases List.mem_append.mp member with old | new
    · obtain ⟨s, root, inside⟩ := first.covered n old
      exact ⟨s, List.mem_append_left _ root, inside⟩
    · obtain ⟨s, root, inside⟩ := second.covered n new
      exact ⟨s, List.mem_append_right _ root, inside⟩

theorem leaf {n : Node Mark} (laid : Laid b [n] b₁) : Rooted b [n] [n.mark.span] b₁ where
  toLaid := laid
  ends := by
    intro s member
    obtain rfl := List.mem_singleton.mp member
    exact laid.bounds n List.mem_cons_self
  covered := by
    intro k member
    obtain rfl := List.mem_singleton.mp member
    exact ⟨_, List.mem_cons_self, Nat.le_refl _, Nat.le_refl _⟩

/-- A node above others, whose span covers theirs. -/
theorem snoc (parts : Rooted b ns roots b₁) {n : Node Mark} (root : n.below = ns ++ [n])
    (number : n.number = b₁.count)
    (bounds : b.cursor.pos ≤ n.mark.span.lo ∧ n.mark.span.hi ≤ b₁.cursor.pos)
    (covers : ∀ s ∈ roots, s.Inside n.mark.span) :
    Rooted b (ns ++ [n]) [n.mark.span] b₁.next where
  toLaid := by
    refine parts.toLaid.snoc root number bounds ?_
    intro k member
    obtain ⟨s, top, inside⟩ := parts.covered k member
    exact inside.trans (covers s top)
  ends := by
    intro s member
    obtain rfl := List.mem_singleton.mp member
    exact bounds
  covered := by
    intro k member
    refine ⟨_, List.mem_cons_self, ?_⟩
    rcases List.mem_append.mp member with inner | last
    · obtain ⟨s, top, inside⟩ := parts.covered k inner
      exact inside.trans (covers s top)
    · obtain rfl := List.mem_singleton.mp last
      exact ⟨Nat.le_refl _, Nat.le_refl _⟩

theorem above {s : Span} (part : Rooted b ns [s] b₁) {n : Node Mark} (root : n.below = ns ++ [n])
    (number : n.number = b₁.count) (span : n.mark.span = s) :
    Rooted b (ns ++ [n]) [n.mark.span] b₁.next := by
  refine part.snoc root number ?_ ?_
  · rw [span]
    exact part.ends s List.mem_cons_self
  · intro t member
    obtain rfl := List.mem_singleton.mp member
    rw [span]
    exact ⟨Nat.le_refl _, Nat.le_refl _⟩

/-- A node above a first part and any number of others, whose span covers them all. -/
theorem aboveAll {s : Span} {rest : List Span} (parts : Rooted b ns (s :: rest) b₁) {n : Node Mark}
    (root : n.below = ns ++ [n]) (number : n.number = b₁.count)
    (span : n.mark.span = s.coverAll rest) :
    Rooted b (ns ++ [n]) [n.mark.span] b₁.next := by
  have inside := s.inside_coverAll rest
  refine parts.snoc root number ?_ ?_
  · rw [span]
    exact Span.coverAll_bounds (parts.ends s List.mem_cons_self)
      fun t member => parts.ends t (List.mem_cons_of_mem s member)
  · intro t member
    rw [span]
    rcases List.mem_cons.mp member with rfl | later
    · exact inside.1
    · exact inside.2 t later

theorem block (parts : Rooted b ns roots b₁) {n : Node Mark} (root : n.below = ns ++ [n])
    (number : n.number = b₁.count) (span : n.mark.span = (Build.coverOrPoint roots b₁).1) :
    Rooted b (ns ++ [n]) [n.mark.span] b₁.next := by
  cases roots with
  | nil =>
    refine parts.snoc root number ?_ (by simp)
    rw [span]
    exact ⟨parts.pos, Nat.le_refl _⟩
  | cons s rest => exact parts.aboveAll root number span

/-- A node above a first part, a last part and any number between them, whose span covers the
first and the last. -/
theorem aboveBetween {s t : Span} (first : Rooted b ns [s] b₁) (between : Rooted b₁ ks roots b₂)
    (last : Rooted b₂ js [t] b₃) {ms : List (Node Mark)} (shape : ms = ns ++ ks ++ js)
    {n : Node Mark} (root : n.below = ms ++ [n])
    (number : n.number = b₃.count) (span : n.mark.span = s.cover t) :
    Rooted b (ms ++ [n]) [n.mark.span] b₃.next := by
  subst shape
  have parts := (first.append between).append last
  have before := first.ends s List.mem_cons_self
  have after := last.ends t List.mem_cons_self
  have := first.pos
  have := between.pos
  have := last.pos
  have := s.lo_le_hi
  have := t.lo_le_hi
  refine parts.snoc root number ?_ ?_
  · rw [span]
    simp only [Span.cover]
    omega
  · intro u member
    rw [span]
    simp only [List.append_assoc, List.mem_append, List.mem_singleton] at member
    rcases member with rfl | mid | rfl
    · exact u.inside_cover_left t
    · have := between.ends u mid
      simp only [Span.cover, Span.Inside]
      omega
    · exact s.inside_cover_right u

end Rooted

/-! ### Anchoring -/

namespace Build

variable {α β : Type}

theorem bind_apply (a : Build α) (f : α → Build β) (b : Builder) :
    (a >>= f) b = f (a b).1 (a b).2 := rfl

theorem pure_apply (x : α) (b : Builder) : (pure x : Build α) b = (x, b) := rfl

theorem mark_apply (labels : Labels) (span : Span) (b : Builder) :
    mark labels span b = (⟨b.nextId, span, labels⟩, { b with nextId := b.nextId + 1 }) := rfl

theorem coverOrPoint_state (spans : List Span) (b : Builder) : (coverOrPoint spans b).2 = b := by
  cases spans <;> rfl

theorem leaf_rooted (labels : Labels) (text : String) (b : Builder) {b₁ : Builder} {n : Node Mark}
    (alone : n.below = [n]) (same : n.mark = (leaf labels text b).1)
    (next : b₁.nextId = (leaf labels text b).2.nextId)
    (cursor : b₁.cursor = (leaf labels text b).2.cursor) : Rooted b [n] [n.mark.span] b₁ := by
  refine .leaf (.leaf alone ?_ ?_ ?_)
  · rw [Node.number, same]
    rfl
  · rw [same, cursor]
    exact b.cursor.take_bounds text.toList
  · rw [Builder.count, next]
    rfl

end Build

open Build

theorem Ident.anchor_rooted (x : Ident Labels) (b : Builder) {n : Node Mark}
    (alone : n.below = [n]) (same : n.mark = (x.anchor b).1.mark) :
    Rooted b [n] [n.mark.span] (x.anchor b).2 :=
  leaf_rooted x.mark x.name b alone same rfl rfl

theorem Lit.anchor_rooted (l : Lit Labels) (b : Builder) {n : Node Mark}
    (alone : n.below = [n]) (same : n.mark = (l.anchor b).1.mark) :
    Rooted b [n] [n.mark.span] (l.anchor b).2 := by
  obtain ⟨m, v⟩ := l
  cases v <;> exact leaf_rooted m _ b alone same rfl rfl

mutual
theorem Expr.anchor_rooted : ∀ (e : Expr Labels) (b : Builder),
    Rooted b (e.anchor b).1.nodes [(e.anchor b).1.span] (e.anchor b).2
  | .lit l, b => l.anchor_rooted b (n := .expr (.lit (l.anchor b).1)) rfl rfl
  | .name x, b => x.anchor_rooted b (n := .expr (.name (x.anchor b).1)) rfl rfl
  | .paren _ e, b => (e.anchor_rooted b).above rfl rfl rfl
  | .unary _ _ e, b => (e.anchor_rooted b).above rfl rfl rfl
  | .bin _ _ l r, b =>
    ((l.anchor_rooted b).append (r.anchor_rooted _)).aboveAll rfl rfl rfl
  | .call _ f args, b =>
    ((f.anchor_rooted b (n := .ident (f.anchor b).1) rfl rfl).append
      (anchorExprs_rooted args _)).aboveAll rfl rfl rfl
  | .block _ ss tail, b => by
    have parts := (anchorStmts_rooted ss b).append (anchorTail_rooted tail _)
    rw [Expr.anchor]
    simp only [bind_apply, pure_apply, mark_apply, coverOrPoint_state]
    exact parts.block rfl rfl rfl
  | .assign _ x e, b =>
    ((x.anchor_rooted b (n := .ident (x.anchor b).1) rfl rfl).append
      (e.anchor_rooted _)).aboveAll rfl rfl rfl
  | .cases _ e arms, b =>
    ((e.anchor_rooted b).append (anchorArms_rooted arms _)).aboveAll rfl rfl rfl
  | .inhabitant _ t, b => (t.anchor_rooted b).above rfl rfl rfl
  | .host m desc, b => leaf_rooted m desc b (n := .expr (.host _ desc)) rfl rfl rfl rfl

theorem anchorExprs_rooted : ∀ (es : List (Expr Labels)) (b : Builder),
    Rooted b (exprsNodes (anchorExprs es b).1) ((anchorExprs es b).1.map Expr.span)
      (anchorExprs es b).2
  | [], b => .nil b
  | e :: es, b => (e.anchor_rooted b).append (anchorExprs_rooted es _)

theorem anchorTail_rooted : ∀ (tail : Option (Expr Labels)) (b : Builder),
    Rooted b (tailNodes (anchorTail tail b).1) ((anchorTail tail b).1.toList.map Expr.span)
      (anchorTail tail b).2
  | none, b => .nil b
  | some e, b => e.anchor_rooted b

theorem anchorArms_rooted : ∀ (arms : List (Arm Labels)) (b : Builder),
    Rooted b (armsNodes (anchorArms arms b).1) ((anchorArms arms b).1.map (·.mark.span))
      (anchorArms arms b).2
  | [], b => .nil b
  | ⟨_, p, e⟩ :: arms, b =>
    (((p.anchor_rooted b).append (e.anchor_rooted _)).aboveAll rfl rfl rfl).append
      (anchorArms_rooted arms _)

theorem Pat.anchor_rooted : ∀ (p : Pat Labels) (b : Builder),
    Rooted b (p.anchor b).1.nodes [(p.anchor b).1.span] (p.anchor b).2
  | .wildcard m, b => leaf_rooted m "_" b (n := .pat (.wildcard _)) rfl rfl rfl rfl
  | .lit _ l, b => (l.anchor_rooted b (n := .lit (l.anchor b).1) rfl rfl).above rfl rfl rfl
  | .typed _ t, b => (t.anchor_rooted b).above rfl rfl rfl

theorem TyNode.anchor_rooted : ∀ (t : TyNode Labels) (b : Builder),
    Rooted b (t.anchor b).1.nodes [(t.anchor b).1.span] (t.anchor b).2
  | .refer _ x, b =>
    (x.anchor_rooted b (n := .ident (x.anchor b).1) rfl rfl).above rfl rfl rfl
  | .singleton _ e, b => (e.anchor_rooted b).above rfl rfl rfl
  | .lit _ l _, b => (l.anchor_rooted b (n := .lit (l.anchor b).1) rfl rfl).above rfl rfl rfl
  | .paren _ t, b => (t.anchor_rooted b).above rfl rfl rfl

theorem anchorTy?_rooted : ∀ (t : Option (TyNode Labels)) (b : Builder),
    Rooted b (tyNodes? (anchorTy? t b).1) ((anchorTy? t b).1.toList.map TyNode.span)
      (anchorTy? t b).2
  | none, b => .nil b
  | some t, b => t.anchor_rooted b

theorem anchorParams_rooted : ∀ (ps : List (Param Labels)) (b : Builder),
    Rooted b (paramsNodes (anchorParams ps b).1) ((anchorParams ps b).1.map (·.mark.span))
      (anchorParams ps b).2
  | [], b => .nil b
  | ⟨_, x, t⟩ :: ps, b =>
    (((x.anchor_rooted b (n := .ident (x.anchor b).1) rfl rfl).append
      (t.anchor_rooted _)).aboveAll rfl rfl rfl).append (anchorParams_rooted ps _)

theorem Stmt.anchor_rooted : ∀ (s : Stmt Labels) (b : Builder),
    Rooted b (s.anchor b).1.nodes [(s.anchor b).1.span] (s.anchor b).2
  | .val ⟨_, _, x, t, e⟩, b =>
    Rooted.aboveBetween (x.anchor_rooted b (n := .ident (x.anchor b).1) rfl rfl)
      (anchorTy?_rooted t _) (e.anchor_rooted _) rfl rfl rfl rfl
  | .typeAlias ⟨_, x, t⟩, b =>
    ((x.anchor_rooted b (n := .ident (x.anchor b).1) rfl rfl).append
      (t.anchor_rooted _)).aboveAll rfl rfl rfl
  | .fn ⟨_, x, ps, t, e⟩, b =>
    Rooted.aboveBetween (x.anchor_rooted b (n := .ident (x.anchor b).1) rfl rfl)
      ((anchorParams_rooted ps _).append (anchorTy?_rooted t _)) (e.anchor_rooted _)
      (congrArg (· ++ _) (List.append_assoc [_] _ _)) rfl rfl rfl
  | .expr _ e, b => (e.anchor_rooted b).above rfl rfl rfl

theorem anchorStmts_rooted : ∀ (ss : List (Stmt Labels)) (b : Builder),
    Rooted b (stmtsNodes (anchorStmts ss b).1) ((anchorStmts ss b).1.map Stmt.span)
      (anchorStmts ss b).2
  | [], b => .nil b
  | s :: ss, b => (s.anchor_rooted b).append (anchorStmts_rooted ss _)
end

/-- The nodes of an anchored program, its own node apart, are laid from the start of the text. -/
theorem Source.anchor_laid (module : ModuleId) (text : String) (stmts : List (Stmt Labels)) :
    ∃ b, Laid (.start module text) (stmtsNodes (Source.anchor module text stmts).program.stmts) b ∧
      (Source.anchor module text stmts).program.mark.id = b.nextId :=
  ⟨_, (anchorStmts_rooted stmts (.start module text)).toLaid, rfl⟩

/-- The number of a node is its place among all nodes. -/
theorem Source.anchor_numbers (module : ModuleId) (text : String) (stmts : List (Stmt Labels)) :
    (Source.anchor module text stmts).program.nodes.map Node.number =
      List.range (Source.anchor module text stmts).program.nodes.length := by
  obtain ⟨b, laid, last⟩ := Source.anchor_laid module text stmts
  have own : Node.number (.program (Source.anchor module text stmts).program) = b.count := last
  rw [Program.nodes, List.map_append, laid.ids, List.map_singleton, own, laid.count,
    List.length_append, List.length_singleton, List.range_eq_range', List.range'_concat, Nat.one_mul]
  rfl

/-- No two nodes of an anchored program have the same number. -/
theorem Source.anchor_nodup (module : ModuleId) (text : String) (stmts : List (Stmt Labels)) :
    ((Source.anchor module text stmts).program.nodes.map Node.number).Nodup := by
  rw [Source.anchor_numbers]
  exact List.nodup_range

end Solo
