import Solo.Proofs.Layout

/-!
# Spans

What anchoring says of every node of a program, wherever its text was found and even if it was not
found. The number of a node is its place in the order in which nodes are built, and its span starts
and ends at boundaries of the text, contains the spans below it and comes after those of the
siblings before it.
-/

namespace Solo

/-! ### Boundaries -/

/-- A byte of a text at which a character starts, or at which the text ends. -/
def Boundary (text : String) (i : Nat) : Prop := String.Pos.Raw.IsValid text ⟨i⟩

namespace Cursor

theorem byteLength_append (cs ds : List Char) :
    byteLength (cs ++ ds) = byteLength cs + byteLength ds := by
  induction cs with
  | nil => simp [byteLength]
  | cons c cs ih =>
    simp only [List.cons_append, byteLength, ih]
    omega

theorem byteLength_eq (cs : List Char) : byteLength cs = (String.ofList cs).utf8ByteSize := by
  induction cs with
  | nil => simp [byteLength]
  | cons c cs ih =>
    have split : String.ofList (c :: cs) = String.singleton c ++ String.ofList cs := by
      rw [String.singleton_eq_ofList, ← String.ofList_append]
      rfl
    rw [byteLength, ih, split, String.utf8ByteSize_append, String.utf8ByteSize_singleton]

end Cursor

theorem Boundary.ofSplit {text : String} {read rest : List Char}
    (split : text.toList = read ++ rest) : Boundary text (Cursor.byteLength read) := by
  refine String.Pos.Raw.isValid_iff_exists_take_toList.mpr ⟨read.length, ?_⟩
  rw [split, List.take_left, Cursor.byteLength_eq]

/-- A span that starts and ends at boundaries of a text. -/
structure Span.Aligned (text : String) (s : Span) : Prop where
  lo : Boundary text s.lo
  hi : Boundary text s.hi

theorem Span.Aligned.cover {text : String} {s t : Span} (first : s.Aligned text)
    (second : t.Aligned text) : (s.cover t).Aligned text := by
  constructor
  · rcases Nat.le_total s.lo t.lo with less | less <;> simp [Span.cover, less, first.lo, second.lo]
  · rcases Nat.le_total s.hi t.hi with less | less <;> simp [Span.cover, less, first.hi, second.hi]

theorem Span.Aligned.coverAll {text : String} {s : Span} {rest : List Span}
    (first : s.Aligned text) (others : ∀ t ∈ rest, t.Aligned text) :
    (s.coverAll rest).Aligned text := by
  induction rest generalizing s with
  | nil => exact first
  | cons t rest ih =>
    exact ih (first.cover (others t List.mem_cons_self)) fun u member =>
      others u (List.mem_cons_of_mem t member)

/-! ### Reading a text -/

namespace Cursor

/-- A cursor that stands in a text, after the part that was read. -/
def Stands (text : String) (c : Cursor) : Prop :=
  ∃ read, text.toList = read ++ c.rest ∧ c.pos = byteLength read

theorem stands_start (module : ModuleId) (text : String) : (start module text).Stands text :=
  ⟨[], rfl, rfl⟩

theorem Stands.point {text : String} {c : Cursor} (stands : c.Stands text) :
    c.point.Aligned text := by
  obtain ⟨read, split, pos⟩ := stands
  have boundary : Boundary text c.pos := pos ▸ .ofSplit split
  exact ⟨boundary, boundary⟩

/-- A token that is found stands in the text behind what was passed over. -/
theorem seek_split {token : List Char} {skip pos : Nat} {before : Option Char} {cs : List Char}
    {hit : Hit} (found : seek token skip before pos cs = some hit) :
    ∃ passed, cs = passed ++ token ++ hit.rest ∧ hit.lo = pos + byteLength passed := by
  induction cs generalizing skip before pos with
  | nil =>
    unfold seek at found
    split at found
    · next empty =>
      cases found
      exact ⟨[], by simp [empty.2], rfl⟩
    · cases found
  | cons c cs ih =>
    have later : ∀ {k b}, seek token k b (pos + c.utf8Size) cs = some hit →
        ∃ passed, c :: cs = passed ++ token ++ hit.rest ∧ hit.lo = pos + byteLength passed := by
      intro k b found
      obtain ⟨passed, split, lo⟩ := ih found
      refine ⟨c :: passed, by simp [split], ?_⟩
      rw [lo, byteLength]
      omega
    unfold seek at found
    split at found
    · split at found
      · next occurs =>
        dsimp only at found
        split at found
        · cases found
          obtain ⟨rest, split⟩ := List.isPrefixOf_iff_prefix.mp occurs
          exact ⟨[], by simp [← split], rfl⟩
        · exact later found
      · exact later found
    · exact later found

theorem Stands.take {text : String} {c : Cursor} (stands : c.Stands text) (token : List Char) :
    (c.take token).1.Aligned text ∧ (c.take token).2.Stands text := by
  unfold Cursor.take
  split
  · next hit found =>
    obtain ⟨read, split, pos⟩ := stands
    obtain ⟨passed, ahead, lo⟩ := seek_split found
    have after : text.toList = read ++ passed ++ token ++ hit.rest := by
      simp only [split, ahead, List.append_assoc]
    have start : hit.lo = byteLength (read ++ passed) := by
      rw [lo, pos, byteLength_append]
    have next : hit.lo + byteLength token = byteLength (read ++ passed ++ token) := by
      rw [start, byteLength_append (read ++ passed)]
    refine ⟨⟨?_, ?_⟩, _, after, next⟩
    · exact (congrArg (Boundary text) start).mpr (.ofSplit (by rw [after, List.append_assoc]))
    · exact (congrArg (Boundary text) next).mpr (.ofSplit after)
  · exact ⟨stands.point, stands⟩

end Cursor

namespace Build

variable {α β : Type} {text : String}

/-- An action that keeps the cursor in the text, and whose answer satisfies `Q`. -/
def Reads (text : String) (a : Build α) (Q : α → Prop) : Prop :=
  ∀ b, b.cursor.Stands text → Q (a b).1 ∧ (a b).2.cursor.Stands text

namespace Reads

theorem pure {x : α} {Q : α → Prop} (holds : Q x) : Reads text (Pure.pure x) Q :=
  fun _ stands => ⟨holds, stands⟩

theorem bind {a : Build α} {f : α → Build β} {Q : α → Prop} {R : β → Prop} (first : Reads text a Q)
    (rest : ∀ x, Q x → Reads text (f x) R) : Reads text (a >>= f) R := by
  intro b stands
  obtain ⟨holds, stands⟩ := first b stands
  exact rest _ holds _ stands

theorem mark (labels : Labels) {span : Span} (aligned : span.Aligned text) :
    Reads text (Build.mark labels span) (·.span.Aligned text) :=
  fun _ stands => ⟨aligned, stands⟩

theorem enter (name : String) : Reads text (Build.enter name) fun _ => True :=
  fun _ stands => ⟨trivial, stands⟩

theorem leaf (labels : Labels) (token : String) :
    Reads text (Build.leaf labels token) (·.span.Aligned text) :=
  .bind (fun _ stands => stands.take token.toList) fun _ aligned => .mark labels aligned

theorem coverOrPoint {spans : List Span} (each : ∀ s ∈ spans, s.Aligned text) :
    Reads text (Build.coverOrPoint spans) (·.Aligned text) := by
  cases spans with
  | nil => exact fun _ stands => ⟨stands.point, stands⟩
  | cons s rest =>
    exact .pure (.coverAll (each s List.mem_cons_self) fun t member =>
      each t (List.mem_cons_of_mem s member))

end Reads

end Build

/-! ### Trees -/

def Node.Aligned (text : String) (n : Node Mark) : Prop := ∀ k ∈ n.below, k.mark.span.Aligned text

namespace Node.Aligned

variable {text : String} {n : Node Mark}

theorem own (aligned : n.Aligned text) : n.mark.span.Aligned text :=
  aligned n (n.below_suffix.subset List.mem_cons_self)

theorem intro (own : n.mark.span.Aligned text) (children : ∀ k ∈ n.children, k.Aligned text) :
    n.Aligned text := by
  intro k member
  rw [n.below_eq, List.mem_append, List.mem_flatMap, List.mem_singleton] at member
  rcases member with ⟨j, child, below⟩ | rfl
  · exact children j child k below
  · exact own

end Node.Aligned

open Build

theorem Ident.anchor_reads (text : String) (x : Ident Labels) :
    Reads text x.anchor (·.mark.span.Aligned text) :=
  .bind (.leaf x.mark x.name) fun _ own => .bind (.enter _) fun _ _ => .pure own

theorem Lit.anchor_reads (text : String) (l : Lit Labels) :
    Reads text l.anchor (·.mark.span.Aligned text) := by
  obtain ⟨m, v⟩ := l
  have found : Reads text (leaf m v.source) (·.span.Aligned text) := .leaf m _
  cases v with
  | str s => exact .bind (.enter s) fun _ _ => .bind found fun _ own => .pure own
  | _ => exact .bind found fun _ own => .pure own

mutual
theorem Expr.anchor_reads (text : String) : ∀ e : Expr Labels,
    Reads text e.anchor fun e => (Node.expr e).Aligned text
  | .lit l => .bind (l.anchor_reads text) fun _ own => .pure (.intro own nofun)
  | .name x => .bind (x.anchor_reads text) fun _ own => .pure (.intro own nofun)
  | .paren m e | .unary m _ e =>
    .bind (e.anchor_reads text) fun e inner => .bind (.mark m inner.own) fun _ own =>
      .pure (.intro own (by simpa [Node.children] using inner))
  | .bin m _ l r =>
    .bind (l.anchor_reads text) fun l left => .bind (r.anchor_reads text) fun r right =>
      .bind (.mark m (left.own.cover right.own)) fun _ own =>
        .pure (.intro own (by simpa [Node.children] using ⟨left, right⟩))
  | .call m f args =>
    .bind (f.anchor_reads text) fun f callee => .bind (anchorExprs_reads text args) fun args each => by
      refine .bind (.mark m (callee.coverAll ?_)) fun _ own => .pure (.intro own ?_)
      · exact List.forall_mem_map.mpr fun e member => (each e member).own
      · simpa [Node.children] using ⟨.intro callee nofun, each⟩
  | .block m ss tail =>
    .bind (anchorStmts_reads text ss) fun ss each => .bind (anchorTail_reads text tail) fun tail last => by
      refine .bind (.coverOrPoint ?_) fun span aligned =>
        .bind (.mark m aligned) fun _ own => .pure (.intro own ?_)
      · rintro span member
        rcases List.mem_append.mp member with stmt | end_
        · obtain ⟨s, inside, rfl⟩ := List.mem_map.mp stmt
          exact (each s inside).own
        · obtain ⟨e, inside, rfl⟩ := List.mem_map.mp end_
          exact (last e (Option.mem_toList.mp inside)).own
      · simp only [Node.children, List.mem_append, List.mem_map, Option.mem_toList]
        rintro _ (⟨s, inside, rfl⟩ | ⟨e, inside, rfl⟩)
        · exact each s inside
        · exact last e inside
  | .assign m x e =>
    .bind (x.anchor_reads text) fun x target => .bind (e.anchor_reads text) fun e inner =>
      .bind (.mark m (target.cover inner.own)) fun _ own =>
        .pure (.intro own (by simpa [Node.children] using ⟨.intro target nofun, inner⟩))
  | .cases m e arms =>
    .bind (e.anchor_reads text) fun e inner => .bind (anchorArms_reads text arms) fun arms each => by
      refine .bind (.mark m (inner.own.coverAll ?_)) fun _ own => .pure (.intro own ?_)
      · exact List.forall_mem_map.mpr fun a member => (each a member).own
      · simpa [Node.children] using ⟨inner, each⟩
  | .inhabitant m t =>
    .bind (t.anchor_reads text) fun t inner => .bind (.mark m inner.own) fun _ own =>
      .pure (.intro own (by simpa [Node.children] using inner))
  | .host m desc =>
    .bind (.leaf m desc) fun _ own => .bind (.enter desc) fun _ _ => .pure (.intro own nofun)

theorem anchorExprs_reads (text : String) : ∀ es : List (Expr Labels),
    Reads text (anchorExprs es) fun es => ∀ e ∈ es, (Node.expr e).Aligned text
  | [] => .pure nofun
  | e :: es =>
    .bind (e.anchor_reads text) fun _ first => .bind (anchorExprs_reads text es) fun _ rest =>
      .pure (List.forall_mem_cons.mpr ⟨first, rest⟩)

theorem anchorTail_reads (text : String) : ∀ tail : Option (Expr Labels),
    Reads text (anchorTail tail) fun tail => ∀ e ∈ tail, (Node.expr e).Aligned text
  | none => .pure nofun
  | some e => .bind (e.anchor_reads text) fun _ inner => .pure (by simpa using inner)

theorem anchorArms_reads (text : String) : ∀ arms : List (Arm Labels),
    Reads text (anchorArms arms) fun arms => ∀ a ∈ arms, (Node.arm a).Aligned text
  | [] => .pure nofun
  | ⟨m, q, e⟩ :: arms =>
    .bind (q.anchor_reads text) fun q pat => .bind (e.anchor_reads text) fun e body =>
      .bind (.mark m (pat.own.cover body.own)) fun _ own => .bind (anchorArms_reads text arms)
        fun _ rest => .pure (List.forall_mem_cons.mpr
          ⟨.intro own (by simpa [Node.children] using ⟨pat, body⟩), rest⟩)

theorem Pat.anchor_reads (text : String) : ∀ q : Pat Labels,
    Reads text q.anchor fun q => (Node.pat q).Aligned text
  | .wildcard m => .bind (.leaf m "_") fun _ own => .pure (.intro own nofun)
  | .lit m l =>
    .bind (l.anchor_reads text) fun l inner => .bind (.mark m inner) fun _ own =>
      .pure (.intro own (by simpa [Node.children] using .intro inner nofun))
  | .typed m t =>
    .bind (t.anchor_reads text) fun t inner => .bind (.mark m inner.own) fun _ own =>
      .pure (.intro own (by simpa [Node.children] using inner))

theorem TyNode.anchor_reads (text : String) : ∀ t : TyNode Labels,
    Reads text t.anchor fun t => (Node.ty t).Aligned text
  | .refer m x =>
    .bind (x.anchor_reads text) fun x inner => .bind (.mark m inner) fun _ own =>
      .pure (.intro own (by simpa [Node.children] using .intro inner nofun))
  | .singleton m e =>
    .bind (e.anchor_reads text) fun e inner => .bind (.mark m inner.own) fun _ own =>
      .pure (.intro own (by simpa [Node.children] using inner))
  | .lit m l _ =>
    .bind (l.anchor_reads text) fun l inner => .bind (.mark m inner) fun _ own =>
      .pure (.intro own (by simpa [Node.children] using .intro inner nofun))
  | .paren m t =>
    .bind (t.anchor_reads text) fun t inner => .bind (.mark m inner.own) fun _ own =>
      .pure (.intro own (by simpa [Node.children] using inner))

theorem anchorTy?_reads (text : String) : ∀ t : Option (TyNode Labels),
    Reads text (anchorTy? t) fun t => ∀ node ∈ t, (Node.ty node).Aligned text
  | none => .pure nofun
  | some t => .bind (t.anchor_reads text) fun _ inner => .pure (by simpa using inner)

theorem anchorParams_reads (text : String) : ∀ ps : List (Param Labels),
    Reads text (anchorParams ps) fun ps => ∀ q ∈ ps, (Node.param q).Aligned text
  | [] => .pure nofun
  | ⟨m, x, t⟩ :: ps =>
    .bind (x.anchor_reads text) fun x name => .bind (t.anchor_reads text) fun t type =>
      .bind (.mark m (name.cover type.own)) fun _ own => .bind (anchorParams_reads text ps)
        fun _ rest => .pure (List.forall_mem_cons.mpr
          ⟨.intro own (by simpa [Node.children] using ⟨.intro name nofun, type⟩), rest⟩)

theorem Stmt.anchor_reads (text : String) : ∀ s : Stmt Labels,
    Reads text s.anchor fun s => (Node.stmt s).Aligned text
  | .val ⟨m, _, x, t, e⟩ =>
    .bind (x.anchor_reads text) fun x name => .bind (anchorTy?_reads text t) fun t type =>
      .bind (e.anchor_reads text) fun e init => .bind (.mark m (name.cover init.own)) fun _ own => by
        refine .pure (.intro own ?_)
        simp only [Node.children, List.cons_append, List.mem_cons, List.mem_append, List.mem_map,
          Option.mem_toList, List.not_mem_nil, or_false]
        rintro _ (rfl | ⟨node, inside, rfl⟩ | rfl)
        · exact .intro name nofun
        · exact type node inside
        · exact init
  | .typeAlias ⟨m, x, t⟩ =>
    .bind (x.anchor_reads text) fun x name => .bind (t.anchor_reads text) fun t type =>
      .bind (.mark m (name.cover type.own)) fun _ own =>
        .pure (.intro own (by simpa [Node.children] using ⟨.intro name nofun, type⟩))
  | .fn ⟨m, x, ps, t, e⟩ =>
    .bind (x.anchor_reads text) fun x name => .bind (anchorParams_reads text ps) fun ps params =>
      .bind (anchorTy?_reads text t) fun t result => .bind (e.anchor_reads text) fun e body =>
        .bind (.mark m (name.cover body.own)) fun _ own => by
          refine .pure (.intro own ?_)
          simp only [Node.children, List.cons_append, List.mem_cons, List.mem_append, List.mem_map,
            Option.mem_toList, List.not_mem_nil, or_false, or_assoc]
          rintro _ (rfl | ⟨q, inside, rfl⟩ | ⟨node, inside, rfl⟩ | rfl)
          · exact .intro name nofun
          · exact params q inside
          · exact result node inside
          · exact body
  | .expr m e =>
    .bind (e.anchor_reads text) fun e inner => .bind (.mark m inner.own) fun _ own =>
      .pure (.intro own (by simpa [Node.children] using inner))

theorem anchorStmts_reads (text : String) : ∀ ss : List (Stmt Labels),
    Reads text (anchorStmts ss) fun ss => ∀ s ∈ ss, (Node.stmt s).Aligned text
  | [] => .pure nofun
  | s :: ss =>
    .bind (s.anchor_reads text) fun _ first => .bind (anchorStmts_reads text ss) fun _ rest =>
      .pure (List.forall_mem_cons.mpr ⟨first, rest⟩)
end

/-! ### Programs -/

/-- What numbers and spans are like in a program that is anchored in a text. -/
structure Program.Anchored (text : String) (p : Program Mark) : Prop where
  /-- The numbers are the places of the nodes, which come after what is below them. -/
  dense : p.nodes.map Node.number = List.range p.nodes.length
  postorder : ∀ n ∈ p.nodes, n.below = n.children.flatMap Node.below ++ [n]
  found : ∀ n ∈ p.nodes, p.nodes[n.number]? = some n
  rising : ∀ n ∈ p.nodes, ∀ k ∈ n.children, k ∈ p.nodes ∧ k.number < n.number
  bounded : ∀ n ∈ p.nodes, n.mark.span.lo ≤ n.mark.span.hi ∧ n.mark.span.hi ≤ text.utf8ByteSize
  aligned : ∀ n ∈ p.nodes, Boundary text n.mark.span.lo ∧ Boundary text n.mark.span.hi
  nested : ∀ n ∈ p.nodes, ∀ k ∈ n.below, k.mark.span.Inside n.mark.span
  /-- Of two children, the one built first ends before the other starts. -/
  ordered : ∀ n ∈ p.nodes, n.children.Pairwise fun k j => k.mark.span.hi ≤ j.mark.span.lo

theorem number_of_split {ns : List (Node Mark)} {n : Node Mark}
    (dense : ns.map Node.number = List.range ns.length) (before after : List (Node Mark))
    (split : ns = before ++ n :: after) : n.number = before.length := by
  have place := congrArg (·[before.length]?) dense
  simpa [split] using place

/-- The children of a node of an anchored program come one after the other in the text. -/
theorem Laid.ordered {b b' : Builder} {ns ks : List (Node Mark)} (laid : Laid b ns b')
    (inside : ks.flatMap Node.below <:+: ns) :
    ks.Pairwise fun k j => k.mark.span.hi ≤ j.mark.span.lo := by
  induction ks with
  | nil => exact .nil
  | cons k ks ih =>
    rw [List.flatMap_cons] at inside
    have later : ks.flatMap Node.below <:+: ns := (List.suffix_append _ _).isInfix.trans inside
    refine .cons (fun j member => ?_) (ih later)
    refine laid.before inside (closed_flatMap ks) (k.below_suffix.subset List.mem_cons_self) ?_
    exact List.mem_flatMap.mpr ⟨j, member, j.below_suffix.subset List.mem_cons_self⟩

theorem Program.children_inside (p : Program Mark) {n : Node Mark} (member : n ∈ p.nodes) :
    n.children.flatMap Node.below <:+: stmtsNodes p.stmts := by
  have start : n.children.flatMap Node.below <+: n.below := ⟨[n], n.below_eq.symm⟩
  rcases List.mem_append.mp member with inner | last
  · exact start.isInfix.trans (stmts_closed p.stmts n inner)
  · obtain rfl := List.mem_singleton.mp last
    rw [Node.children, List.flatMap_map, stmtsNodes_eq]
    exact List.infix_refl _

/-- A node comes before the node that it is a child of. -/
theorem Program.child_before (p : Program Mark)
    (dense : p.nodes.map Node.number = List.range p.nodes.length) {n k : Node Mark}
    (member : n ∈ p.nodes) (child : k ∈ n.children) : k ∈ p.nodes ∧ k.number < n.number := by
  obtain ⟨before, after, split⟩ := p.closed n member
  have inner : k ∈ n.children.flatMap Node.below :=
    List.mem_flatMap.mpr ⟨k, child, k.below_suffix.subset List.mem_cons_self⟩
  obtain ⟨earlier, later, parts⟩ := List.append_of_mem inner
  rw [n.below_eq, parts] at split
  have first := number_of_split (n := k) dense (before ++ earlier) (later ++ [n] ++ after)
    (by rw [← split]; simp)
  have second := number_of_split (n := n) dense (before ++ (earlier ++ k :: later)) after
    (by rw [← split]; simp)
  refine ⟨by rw [← split]; simp, ?_⟩
  simp only [List.length_append, List.length_cons] at first second
  omega

/-- Every node of an anchored program has its place as its number and a span between two boundaries
of the text; spans are nested as the nodes are and come in the order of building. -/
theorem Source.anchor_spans (module : ModuleId) (text : String) (stmts : List (Stmt Labels)) :
    (Source.anchor module text stmts).program.Anchored text := by
  obtain ⟨b, laid, _⟩ := Source.anchor_laid module text stmts
  have dense := Source.anchor_numbers module text stmts
  have read := (anchorStmts_reads text stmts (.start module text) (Cursor.stands_start module text)).1
  generalize program : (Source.anchor module text stmts).program = p at laid dense
  have whole : p.mark.span = ⟨0, text.utf8ByteSize, module, Nat.zero_le _⟩ := by
    rw [← program]
    rfl
  have aligned : ∀ n ∈ p.nodes, n.mark.span.Aligned text := by
    intro n member
    rcases List.mem_append.mp member with inner | last
    · rw [stmtsNodes_eq, List.mem_flatMap] at inner
      obtain ⟨s, stmt, below⟩ := inner
      subst program
      exact read s stmt n below
    · obtain rfl := List.mem_singleton.mp last
      rw [Node.mark, whole]
      exact ⟨Boundary.ofSplit (List.nil_append text.toList).symm, String.Pos.Raw.isValid_rawEndPos⟩
  have bounded : ∀ n ∈ p.nodes, n.mark.span.hi ≤ text.utf8ByteSize := fun n member =>
    (aligned n member).hi.le_utf8ByteSize
  refine ⟨dense, fun n _ => n.below_eq, ?_, ?_, ?_, ?_, ?_, ?_⟩
  · intro n member
    obtain ⟨before, after, split⟩ := List.append_of_mem member
    rw [number_of_split dense before after split, split]
    simp
  · exact fun n member k child => p.child_before dense member child
  · exact fun n member => ⟨n.mark.span.lo_le_hi, bounded n member⟩
  · exact fun n member => ⟨(aligned n member).lo, (aligned n member).hi⟩
  · intro n member k below
    rcases List.mem_append.mp member with inner | last
    · exact laid.nested n inner k below
    · obtain rfl := List.mem_singleton.mp last
      rw [Span.Inside, Node.mark, whole]
      exact ⟨Nat.zero_le _, bounded k below⟩
  · exact fun n member => laid.ordered (p.children_inside member)

end Solo
