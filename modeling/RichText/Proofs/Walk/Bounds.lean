import RichText.Proofs.Walk.CallStack
set_option autoImplicit false

namespace RichText

namespace Token

mutual

def depth : Token → Nat
  | .atom _ => 0
  | .group contents => depthOfList contents + 1

def depthOfList : List Token → Nat
  | [] => 0
  | t :: ts => max t.depth (depthOfList ts)

end

theorem depthOfList_append (ts us : List Token) :
    depthOfList (ts ++ us) = max (depthOfList ts) (depthOfList us) := by
  induction ts with
  | nil => simp [depthOfList]
  | cons t ts ih => simp only [List.cons_append, depthOfList, ih, Nat.max_assoc]

theorem depthOfList_le_of_sublist {ts us : List Token} (h : ts.Sublist us) :
    depthOfList ts ≤ depthOfList us := by
  induction h with
  | slnil => exact Nat.le_refl 0
  | cons t _ ih => exact Nat.le_trans ih (Nat.le_max_right _ _)
  | cons_cons t _ ih =>
    simp only [depthOfList]
    omega

end Token

/-! Scopes -/

def openRows (frames : List Frame) : Nat := frames.countP Frame.isRow

/-- How many more scopes a scope may come to hold, one inside the other: one for each group, and
one for a row unless one is open. -/
def Frame.depth (f : Frame) : Nat := Token.depthOfList f.pending + f.row.isNone.toNat

/-- The scopes have room for what may still be opened inside them, and each knows whether a row is
open around it. -/
def WellNested (bound : Nat) : List Frame → Prop
  | [] => True
  | f :: frames => frames.length + 1 + f.depth ≤ bound ∧
      f.row.isSome.toNat = openRows (f :: frames) ∧ (f.rows ≠ [] → f.row = none) ∧
      WellNested bound frames

namespace WellNested

variable {bound : Nat} {f g after : Frame} {frames : List Frame}

theorem replace (h : WellNested bound (f :: frames)) (hrow : g.row = f.row)
    (hisRow : g.isRow = f.isRow) (hrows : g.rows ≠ [] → g.row = none)
    (hdepth : Token.depthOfList g.pending ≤ Token.depthOfList f.pending) :
    WellNested bound (g :: frames) := by
  obtain ⟨hbound, hopen, _, hframes⟩ := h
  refine ⟨?_, ?_, hrows, hframes⟩
  · simp only [Frame.depth, hrow] at hbound ⊢
    omega
  · simpa [openRows, List.countP_cons, hisRow, hrow] using hopen

theorem push (h : WellNested bound (f :: frames)) (hafter : WellNested bound (after :: frames))
    (hrows : g.rows = []) (hdepth : g.depth < f.depth)
    (hrow : g.row.isSome.toNat = after.row.isSome.toNat + g.isRow.toNat) :
    WellNested bound (g :: after :: frames) := by
  have hbound := h.1
  have hopen := hafter.2.1
  refine ⟨?_, ?_, fun h => absurd hrows h, hafter⟩
  · simp only [List.length_cons]
    omega
  · have hcount : openRows (g :: after :: frames) = openRows (after :: frames) + g.isRow.toNat := by
      cases hisRow : g.isRow <;> simp [openRows, List.countP_cons, hisRow]
    omega

end WellNested

namespace CallStack

structure Fits (bound : Nat) (s : CallStack) : Prop where
  scopes : s.scopes.length = s.frames.length
  nested : WellNested bound s.frames

theorem Fits.step {bound : Nat} {s s' : CallStack} (h : Fits bound s) (hstep : Step s s') :
    Fits bound s' := by
  obtain ⟨hscopes, hnested⟩ := h
  cases hstep with
  | @row f frames r rows hframes hrows =>
    rw [hframes] at hscopes hnested
    have hrow : f.row = none := hnested.2.2.1 (by simp [hrows])
    have hpending : f.pending = r.contents ++ (f.afterRow r rows).pending := by
      simp [Frame.pending, Frame.afterRow, hrows]
    refine ⟨by simp [push, hscopes], ?_⟩
    refine hnested.push (hnested.replace rfl rfl (fun _ => hrow) ?_) rfl ?_ ?_
    · rw [hpending, Token.depthOfList_append]
      exact Nat.le_max_right _ _
    · have hinside : (f.rowInside r).depth = Token.depthOfList r.contents := by
        simp [Frame.depth, Frame.pending, Frame.rowInside]
      rw [hinside, Frame.depth, hrow, hpending, Token.depthOfList_append]
      exact Nat.lt_succ_of_le (Nat.le_max_left _ _)
    · simp [Frame.rowInside, Frame.afterRow, hrow]
  | @leave f frames hframes hrows htokens =>
    rw [hframes] at hscopes hnested
    exact ⟨by simp [hscopes], hnested.2.2.2⟩
  | @group f frames contents ts hframes hrows htokens =>
    rw [hframes] at hscopes hnested
    have hpending : f.pending = .group contents :: ts := by
      simp [Frame.pending, hrows, htokens]
    have hafter : (f.after ts).pending = ts := by
      simp [Frame.pending, Frame.after, hrows]
    refine ⟨by simp [push, look, hscopes], ?_⟩
    refine hnested.push (hnested.replace rfl rfl (fun h => absurd hrows h) ?_) rfl ?_ ?_
    · rw [hpending, hafter]
      exact Nat.le_max_right _ _
    · have hinside : (f.groupInside (.group contents) contents).depth =
          Token.depthOfList contents + f.row.isNone.toNat := by
        simp [Frame.depth, Frame.pending, Frame.groupInside]
      rw [hinside, Frame.depth, hpending, Token.depthOfList, Token.depth]
      omega
    · simp [Frame.groupInside, Frame.after]
  | @table f frames ts hframes hrows htokens hrow =>
    rw [hframes] at hscopes hnested
    refine ⟨hscopes, hnested.replace rfl rfl (fun _ => hrow) ?_⟩
    rw [Frame.pending, Frame.pending, hrows]
    exact Nat.le_of_eq (congrArg _ (Row.contents_take f.tokens))
  | @perform f frames t ts rest w hframes hrows htokens hrest hlength =>
    rw [hframes] at hscopes hnested
    refine ⟨hlength.trans hscopes, hnested.replace rfl rfl (fun h => absurd hrows h) ?_⟩
    apply Token.depthOfList_le_of_sublist
    simp only [Frame.pending, Frame.after, hrows, htokens, List.flatMap_nil, List.nil_append]
    exact (hrest.trans (List.suffix_cons t ts)).sublist

end CallStack

/-! Order -/

def Frame.limit (f : Frame) : List Token := f.passed ++ Token.preorderOfList f.pending

namespace Frame

variable {f : Frame} {t : Token} {ts rest : List Token}

theorem passed_isPrefix_limit (f : Frame) : f.passed <+: f.limit := List.prefix_append _ _

theorem limit_after (hrows : f.rows = []) (hrest : rest <:+ f.tokens) :
    (f.after rest).limit = f.limit := by
  have hpassed := Token.preorderOfList_taken hrest f.passed
  simpa [limit, after, pending, hrows] using hpassed

theorem isPrefix_passed_after (htokens : f.tokens = t :: ts) (hrest : rest <:+ ts) :
    f.passed ++ [t] <+: (f.after rest).passed := by
  rw [after, htokens, Token.taken_cons hrest]
  exact Token.append_isPrefix_preorderOfList _ _ _

theorem limit_groupInside {contents : List Token} (htokens : f.tokens = .group contents :: ts) :
    (f.groupInside (.group contents) contents).limit = (f.after ts).passed := by
  simp [limit, groupInside, after, pending, htokens, Token.preorderOfList, Token.preorder]

end Frame

/-- Each scope ends before the one around it goes on. -/
structure Apart (all : List Token) (frames : List Frame) : Prop where
  limits : ∀ f ∈ frames, f.limit <+: all
  order : frames.Pairwise (fun f g => f.limit <+: g.passed)

namespace Apart

variable {all : List Token} {f g : Frame} {frames : List Frame}

theorem tail (h : Apart all (f :: frames)) : Apart all frames :=
  ⟨fun g hg => h.limits g (List.mem_cons_of_mem _ hg), h.order.of_cons⟩

theorem replace (h : Apart all (f :: frames)) (hlimit : g.limit <+: f.limit) :
    Apart all (g :: frames) := by
  have hbelow := List.pairwise_cons.1 h.order
  refine ⟨?_, List.pairwise_cons.2 ⟨fun k hk => hlimit.trans (hbelow.1 k hk), hbelow.2⟩⟩
  exact List.forall_mem_cons.2 ⟨hlimit.trans (h.limits f List.mem_cons_self), h.tail.limits⟩

theorem push (h : Apart all (f :: frames)) (hlimit : g.limit <+: f.passed) :
    Apart all (g :: f :: frames) := by
  have hbelow := (List.pairwise_cons.1 h.order).1
  have hreach := hlimit.trans f.passed_isPrefix_limit
  refine ⟨List.forall_mem_cons.2 ⟨hreach.trans (h.limits f List.mem_cons_self), h.limits⟩, ?_⟩
  refine List.pairwise_cons.2 ⟨List.forall_mem_cons.2 ⟨hlimit, ?_⟩, h.order⟩
  exact fun k hk => hreach.trans (hbelow k hk)

end Apart

namespace Sighting

def reach (d : Sighting) : List Token := d.passed ++ [d.token]

/-- A token is looked at again only if it opens a table: then first outside of the row, where it
opens the table, and later inside. -/
def Precedes (d d' : Sighting) : Prop :=
  d.passed = d'.passed → d.token = .atom .rowDefaults ∧ d'.token = .atom .rowDefaults ∧
    d.opensTable = true ∧ d.inRow = false ∧ d'.opensTable = false ∧ d'.inRow = true

end Sighting

/-- Where the scope goes on, all that was looked at is passed, but for the row defaults that opened
its table. Outside of rows those are passed too, once the table is. -/
structure Frame.Clear (log : List Sighting) (f : Frame) : Prop where
  behind : ∀ d ∈ log, d.opensTable = false → d.reach <+: f.passed
  outside : f.row = none → ∀ d ∈ log, d.inRow = false →
    d.reach <+: f.passed ++ Token.preorderOfList (f.rows.flatMap Row.contents)

namespace Frame.Clear

variable {log : List Sighting} {f g : Frame}

theorem rowInside (h : f.Clear log) (r : Row) : (f.rowInside r).Clear log :=
  ⟨h.behind, fun hrow => absurd hrow (Option.some_ne_none r)⟩

theorem afterRow {r : Row} {rows : List Row} (h : f.Clear log) (hrows : f.rows = r :: rows) :
    (f.afterRow r rows).Clear log := by
  refine ⟨fun d hd hopens => (h.behind d hd hopens).trans (List.prefix_append _ _), ?_⟩
  intro hrow d hd hinRow
  have houtside := h.outside hrow d hd hinRow
  rw [hrows, List.flatMap_cons, Token.preorderOfList_append, ← List.append_assoc] at houtside
  exact houtside

theorem passed_of_outside (h : f.Clear log) (hrows : f.rows = []) (hrow : f.row = none)
    {d : Sighting} (hd : d ∈ log) (hinRow : d.inRow = false) : d.reach <+: f.passed := by
  have houtside := h.outside hrow d hd hinRow
  rwa [hrows, List.flatMap_nil, Token.preorderOfList, List.append_nil] at houtside

theorem advance {t : Token} (h : f.Clear log) (hrows : f.rows = []) (hrow : g.row = f.row)
    (hpassed : f.passed ++ [t] <+: g.passed) :
    g.Clear (log ++ [⟨f.passed, t, f.row.isSome, false⟩]) := by
  have hbefore : f.passed <+: g.passed := (List.prefix_append _ _).trans hpassed
  refine ⟨List.forall_mem_append.2 ⟨?_, ?_⟩, fun hnone => List.forall_mem_append.2 ⟨?_, ?_⟩⟩
  · exact fun d hd hopens => (h.behind d hd hopens).trans hbefore
  · exact List.forall_mem_singleton.2 fun _ => hpassed
  · intro d hd hinRow
    have hreach := h.passed_of_outside hrows (hrow ▸ hnone) hd hinRow
    exact (hreach.trans hbefore).trans (List.prefix_append _ _)
  · exact List.forall_mem_singleton.2 fun _ => hpassed.trans (List.prefix_append _ _)

theorem below {d : Sighting} (h : g.Clear log) (hreach : d.reach <+: g.passed) :
    g.Clear (log ++ [d]) := by
  refine ⟨List.forall_mem_append.2 ⟨h.behind, ?_⟩, fun hnone => List.forall_mem_append.2
    ⟨h.outside hnone, ?_⟩⟩
  · exact List.forall_mem_singleton.2 fun _ => hreach
  · exact List.forall_mem_singleton.2 fun _ => hreach.trans (List.prefix_append _ _)

theorem withTable {ts : List Token} (h : f.Clear log) (hrows : f.rows = [])
    (htokens : f.tokens = .atom .rowDefaults :: ts) :
    f.withTable.Clear (log ++ [⟨f.passed, .atom .rowDefaults, f.row.isSome, true⟩]) := by
  obtain ⟨rest, htable⟩ : ∃ rest,
      (Row.take f.tokens).1.flatMap Row.contents = .atom .rowDefaults :: rest := by
    rw [htokens, Row.take, Row.takeFrom_of_some (Row.takeContents?_rowDefaults ts)]
    exact ⟨_, rfl⟩
  refine ⟨List.forall_mem_append.2 ⟨h.behind, ?_⟩, fun hnone => List.forall_mem_append.2 ⟨?_, ?_⟩⟩
  · exact List.forall_mem_singleton.2 fun hopens => Bool.noConfusion hopens
  · intro d hd hinRow
    exact (h.passed_of_outside hrows hnone hd hinRow).trans (List.prefix_append _ _)
  · refine List.forall_mem_singleton.2 fun _ => ?_
    change f.passed ++ [.atom .rowDefaults] <+:
      f.passed ++ Token.preorderOfList ((Row.take f.tokens).1.flatMap Row.contents)
    rw [htable]
    exact Token.append_isPrefix_preorderOfList _ _ _

end Frame.Clear

/-- What was looked at, and how it lies to the scopes where the walk goes on. -/
structure Logged (all : List Token) (log : List Sighting) (frames : List Frame) : Prop where
  clear : ∀ f ∈ frames, f.Clear log
  reached : ∀ d ∈ log, d.reach <+: all
  opening : ∀ d ∈ log, d.opensTable = true → d.token = .atom .rowDefaults ∧ d.inRow = false
  once : log.Pairwise Sighting.Precedes

namespace Logged

variable {all : List Token} {log : List Sighting} {f : Frame} {frames : List Frame}

theorem of_nil (all : List Token) (frames : List Frame) : Logged all [] frames where
  clear _ _ := ⟨fun _ hd => absurd hd List.not_mem_nil, fun _ _ hd => absurd hd List.not_mem_nil⟩
  reached _ hd := absurd hd List.not_mem_nil
  opening _ hd := absurd hd List.not_mem_nil
  once := .nil

theorem cons (h : Logged all log frames) (hclear : f.Clear log) : Logged all log (f :: frames) :=
  { h with clear := List.forall_mem_cons.2 ⟨hclear, h.clear⟩ }

theorem tail (h : Logged all log (f :: frames)) : Logged all log frames :=
  { h with clear := fun g hg => h.clear g (List.mem_cons_of_mem _ hg) }

theorem ne_of_reach {d : Sighting} {passed : List Token} (h : d.reach <+: passed) :
    d.passed ≠ passed := by
  rintro rfl
  have hlength := h.length_le
  simp only [Sighting.reach, List.length_append, List.length_singleton] at hlength
  omega

theorem token_eq_of_reach (d d' : Sighting) (h : d.reach <+: all) (h' : d'.reach <+: all)
    (heq : d.passed = d'.passed) : d.token = d'.token := by
  have hreach : d.reach = d'.reach := by
    apply List.IsPrefix.eq_of_length (List.prefix_of_prefix_length_le h h' _)
    · simp [Sighting.reach, heq]
    · simp [Sighting.reach, heq]
  simpa [Sighting.reach, heq] using hreach

theorem look {t : Token} {ts : List Token} {opensTable : Bool}
    (h : Logged all log (f :: frames)) (hapart : Apart all (f :: frames)) (hrows : f.rows = [])
    (htokens : f.tokens = t :: ts)
    (hopens : opensTable = true → f.row = none ∧ t = .atom .rowDefaults) :
    Logged all (log ++ [⟨f.passed, t, f.row.isSome, opensTable⟩]) frames := by
  have hclear := h.clear f List.mem_cons_self
  have hlimit : f.passed ++ [t] <+: f.limit := by
    rw [Frame.limit, Frame.pending, hrows, htokens]
    exact Token.append_isPrefix_preorderOfList f.passed t ts
  have hbelow := (List.pairwise_cons.1 hapart.order).1
  have hreach : f.passed ++ [t] <+: all := hlimit.trans (hapart.limits f List.mem_cons_self)
  refine ⟨?_, List.forall_mem_append.2 ⟨h.reached, List.forall_mem_singleton.2 hreach⟩,
    List.forall_mem_append.2 ⟨h.opening, List.forall_mem_singleton.2 ?_⟩, ?_⟩
  · intro g hg
    exact (h.clear g (List.mem_cons_of_mem _ hg)).below (hlimit.trans (hbelow g hg))
  · intro ho
    exact ⟨(hopens ho).2, by simp [(hopens ho).1]⟩
  · refine List.pairwise_append.2 ⟨h.once, List.pairwise_singleton _ _, ?_⟩
    intro d hd d' hd' heq
    obtain rfl := List.mem_singleton.1 hd'
    -- only what opened the table in front of this scope can have been looked at before
    have hopened : d.opensTable = true := by
      cases hno : d.opensTable with
      | true => rfl
      | false => exact absurd heq (ne_of_reach (hclear.behind d hd hno))
    obtain ⟨htoken, hinRow⟩ := h.opening d hd hopened
    have hrow : f.row ≠ none := by
      intro hnone
      exact ne_of_reach (hclear.passed_of_outside hrows hnone hd hinRow) heq
    have hsame : d.token = t := token_eq_of_reach d
      ⟨f.passed, t, f.row.isSome, opensTable⟩ (h.reached d hd) hreach heq
    refine ⟨htoken, hsame.symm.trans htoken, hopened, hinRow, ?_, ?_⟩
    · cases ho : opensTable with
      | true => exact absurd (hopens ho).1 hrow
      | false => rfl
    · exact Option.isSome_iff_ne_none.2 hrow

end Logged

namespace CallStack

/-- What was looked at and what is still to come lie one after another in the tokens. -/
structure Ordered (all : List Token) (s : CallStack) : Prop where
  apart : Apart all s.frames
  logged : Logged all s.log s.frames

theorem Ordered.step {all : List Token} {s s' : CallStack} (h : Ordered all s)
    (hstep : Step s s') : Ordered all s' := by
  obtain ⟨hapart, hlogged⟩ := h
  cases hstep with
  | @row f frames r rows hframes hrows =>
    rw [hframes] at hapart hlogged
    have hclear := hlogged.clear f List.mem_cons_self
    have hlimit : (f.afterRow r rows).limit = f.limit := by
      simp [Frame.limit, Frame.afterRow, Frame.pending, hrows, Token.preorderOfList_append]
    have hinside : (f.rowInside r).limit = (f.afterRow r rows).passed := by
      simp [Frame.limit, Frame.afterRow, Frame.pending, Frame.rowInside]
    refine ⟨(hapart.replace (hlimit ▸ List.prefix_rfl)).push (hinside ▸ List.prefix_rfl), ?_⟩
    exact (hlogged.tail.cons (hclear.afterRow hrows)).cons (hclear.rowInside r)
  | @leave f frames hframes hrows htokens =>
    rw [hframes] at hapart hlogged
    exact ⟨hapart.tail, hlogged.tail⟩
  | @group f frames contents ts hframes hrows htokens =>
    rw [hframes] at hapart hlogged
    have hclear := hlogged.clear f List.mem_cons_self
    have hlooked := hlogged.look hapart hrows htokens (fun h => absurd h Bool.false_ne_true)
    have hsuffix : ts <:+ f.tokens := htokens ▸ List.suffix_cons _ ts
    have hlimit := f.limit_after hrows hsuffix
    have hinside := Frame.limit_groupInside htokens
    have hafter := hclear.advance (g := f.after ts) hrows rfl
      (Frame.isPrefix_passed_after htokens List.suffix_rfl)
    have hentered := hclear.advance (g := f.groupInside (.group contents) contents) hrows rfl
      List.prefix_rfl
    refine ⟨(hapart.replace (hlimit ▸ List.prefix_rfl)).push (hinside ▸ List.prefix_rfl), ?_⟩
    exact (hlooked.cons hafter).cons hentered
  | @table f frames ts hframes hrows htokens hrow =>
    rw [hframes] at hapart hlogged
    have hclear := hlogged.clear f List.mem_cons_self
    have hlooked := hlogged.look hapart hrows htokens (fun _ : true = true => ⟨hrow, rfl⟩)
    have hlimit : f.withTable.limit = f.limit := by
      simp [Frame.limit, Frame.withTable, Frame.pending, hrows, Row.contents_take]
    refine ⟨hapart.replace (hlimit ▸ List.prefix_rfl), hlooked.cons ?_⟩
    exact hclear.withTable hrows htokens
  | @perform f frames t ts rest w hframes hrows htokens hrest hlength =>
    rw [hframes] at hapart hlogged
    have hclear := hlogged.clear f List.mem_cons_self
    have hlooked := hlogged.look hapart hrows htokens (fun h => absurd h Bool.false_ne_true)
    have hsuffix : rest <:+ f.tokens := htokens ▸ hrest.trans (List.suffix_cons t ts)
    have hlimit := f.limit_after hrows hsuffix
    refine ⟨hapart.replace (hlimit ▸ List.prefix_rfl), hlooked.cons ?_⟩
    exact hclear.advance hrows rfl (Frame.isPrefix_passed_after htokens hrest)

/-! Bounds -/

variable {doc : Document} {s : CallStack}

theorem fits_start (doc : Document) :
    Fits (Token.depthOfList doc.contents + 2) (start doc) := by
  have hbody : Token.depthOfList doc.body ≤ Token.depthOfList doc.contents :=
    Token.depthOfList_le_of_sublist List.filter_sublist
  unfold start
  dsimp only
  split
  · exact ⟨rfl, trivial⟩
  · refine ⟨rfl, ?_, rfl, fun h => absurd rfl h, trivial⟩
    simp only [Frame.depth, Frame.pending, List.flatMap_nil, List.nil_append, List.length_nil,
      Option.isNone_none, Bool.toNat_true]
    omega

theorem ordered_start (doc : Document) :
    Ordered (Token.preorderOfList doc.body) (start doc) := by
  unfold start
  dsimp only
  split
  · exact ⟨⟨fun _ hf => absurd hf List.not_mem_nil, .nil⟩, .of_nil _ _⟩
  · refine ⟨⟨?_, List.pairwise_singleton _ _⟩, .of_nil _ _⟩
    exact List.forall_mem_singleton.2 List.prefix_rfl

theorem invariant_of_reaches (h : Reaches doc (start doc) s) :
    Fits (Token.depthOfList doc.contents + 2) s ∧ Ordered (Token.preorderOfList doc.body) s := by
  induction h with
  | refl => exact ⟨fits_start doc, ordered_start doc⟩
  | tail _ hstep ih =>
    have hstep := step_of_step? hstep
    exact ⟨ih.1.step hstep, ih.2.step hstep⟩

theorem openRows_le_one {bound : Nat} {frames : List Frame} (h : WellNested bound frames) :
    openRows frames ≤ 1 := by
  cases frames with
  | nil => exact Nat.zero_le 1
  | cons f frames =>
    rw [← h.2.1]
    exact Bool.toNat_le _

theorem length_le_of_wellNested {bound : Nat} {frames : List Frame} (h : WellNested bound frames) :
    frames.length ≤ bound := by
  cases frames with
  | nil => exact Nat.zero_le _
  | cons f frames =>
    have hbound := h.1
    simp only [List.length_cons]
    omega

/-- The walk over any document, step by step. Wherever its steps come to, they go on to one end,
with the events of the walk and by way of its stations. On the way there is a scope for every token
that is looked at, there are two scopes more than groups nest at most, and one row is open at most,
in which no table is opened. What is looked at is the tokens of the body, each at most once, but for
the row defaults that open a table, which are looked at again inside their row. -/
theorem walk_within_bounds (doc : Document) :
    (∃ last, last.frames = [] ∧ last.events = doc.walk.events ∧
      last.log = doc.stations.map Station.sighting ∧
      ∀ s, Reaches doc (start doc) s → Reaches doc s last) ∧
    ∀ s, Reaches doc (start doc) s →
      (s.frames ≠ [] → s.scopes ≠ []) ∧
      s.scopes.length ≤ Token.depthOfList doc.contents + 2 ∧
      openRows s.frames ≤ 1 ∧
      (∀ d ∈ s.log, d.opensTable = true → d.inRow = false) ∧
      (∀ d ∈ s.log, d.passed ++ [d.token] <+: Token.preorderOfList doc.body) ∧
      s.log.Pairwise Sighting.Precedes := by
  obtain ⟨last, hlast, hend, hevents, hlog⟩ := reaches_walk doc
  refine ⟨⟨last, hend, hevents, hlog, fun s h => reaches_last hlast hend h⟩, fun s h => ?_⟩
  obtain ⟨⟨hscopes, hnested⟩, -, -, hreached, hopening, honce⟩ := invariant_of_reaches h
  refine ⟨fun hframes hempty => ?_, ?_, openRows_le_one hnested,
    fun d hd hopens => (hopening d hd hopens).2, hreached, honce⟩
  · rw [hempty, List.length_nil] at hscopes
    exact hframes (List.length_eq_zero_iff.1 hscopes.symm)
  · rw [hscopes]
    exact length_le_of_wellNested hnested

end CallStack

end RichText
