import RichText.Row
set_option autoImplicit false

namespace RichText.Row

def Ends (t : Token) : Prop :=
  t = .atom (.breakMark .row) ∨
    ∃ contents, t = .group contents ∧ .atom (.breakMark .row) ∈ contents

/-- A format token other than row defaults. -/
def Leads (t : Token) : Prop := t.category.contains .format = true ∧ t ≠ .atom .rowDefaults

/-- Row defaults are reached through format tokens alone. -/
def Begins (ts : List Token) : Prop :=
  ∃ lead rest, ts = lead ++ .atom .rowDefaults :: rest ∧ ∀ t ∈ lead, Leads t

/-- `Spans contents rest`: the contents are a row that is followed by the rest. -/
inductive Spans : List Token → List Token → Prop where
  | ended {lead body : List Token} {t : Token} (hlead : ∀ u ∈ lead, Leads u)
      (hbody : ∀ u ∈ body, ¬Ends u) (ht : Ends t) (rest : List Token) :
      Spans (lead ++ .atom .rowDefaults :: (body ++ [t])) rest
  | unended {lead body : List Token} (hlead : ∀ u ∈ lead, Leads u)
      (hbody : ∀ u ∈ body, ¬Ends u) : Spans (lead ++ .atom .rowDefaults :: body) []

theorem endsRow_iff {t : Token} : t.endsRow = true ↔ Ends t := by
  cases t with
  | atom a => simp [Token.endsRow, Ends]
  | group contents => simp [Token.endsRow, Token.isRowBreak, Ends]

theorem isLead_iff {t : Token} : isLead t = true ↔ Leads t := by
  simp [isLead, Leads, Token.isFormat, and_comm]

/-! One row -/

theorem splitAfterEnd_cases (ts : List Token) :
    (∃ body t rest, splitAfterEnd ts = (body ++ [t], rest) ∧ (∀ u ∈ body, ¬Ends u) ∧ Ends t) ∨
      splitAfterEnd ts = (ts, []) ∧ ∀ u ∈ ts, ¬Ends u := by
  induction ts with
  | nil => exact .inr ⟨rfl, by simp⟩
  | cons t ts ih =>
    by_cases hends : t.endsRow = true
    · refine .inl ⟨[], t, ts, ?_, by simp, endsRow_iff.1 hends⟩
      rw [splitAfterEnd, if_pos hends]
      rfl
    · have ht : ¬Ends t := fun h => hends (endsRow_iff.2 h)
      rw [splitAfterEnd, if_neg hends]
      obtain ⟨body, u, rest, hsplit, hbody, hu⟩ | ⟨hsplit, hbody⟩ := ih
      · rw [hsplit]
        exact .inl ⟨t :: body, u, rest, rfl, List.forall_mem_cons.2 ⟨ht, hbody⟩, hu⟩
      · rw [hsplit]
        exact .inr ⟨rfl, List.forall_mem_cons.2 ⟨ht, hbody⟩⟩

theorem takeContents?_of_leads {lead : List Token} (hlead : ∀ t ∈ lead, Leads t)
    (rest : List Token) :
    takeContents? (lead ++ .atom .rowDefaults :: rest) =
      some (lead ++ .atom .rowDefaults :: (splitAfterEnd rest).1, (splitAfterEnd rest).2) := by
  have hpos : ∀ t ∈ lead, isLead t = true := fun t ht => isLead_iff.2 (hlead t ht)
  have hstop : ¬isLead (.atom .rowDefaults) = true := by decide
  unfold takeContents?
  rw [List.dropWhile_append_of_pos hpos, List.dropWhile_cons_of_neg hstop,
    List.takeWhile_append_of_pos hpos, List.takeWhile_cons_of_neg hstop, List.append_nil]

theorem begins_of_takeContents? {ts : List Token} (h : takeContents? ts ≠ none) : Begins ts := by
  unfold takeContents? at h
  split at h
  · rename_i rest hrest
    refine ⟨ts.takeWhile isLead, rest, ?_, ?_⟩
    · rw [← hrest, List.takeWhile_append_dropWhile]
    · intro t ht
      exact isLead_iff.1 (List.all_eq_true.1 List.all_takeWhile t ht)
  · exact absurd rfl h

theorem takeContents?_eq_none_iff {ts : List Token} : takeContents? ts = none ↔ ¬Begins ts := by
  constructor
  · rintro hnone ⟨lead, rest, rfl, hlead⟩
    rw [takeContents?_of_leads hlead] at hnone
    exact Option.some_ne_none _ hnone
  · intro hnot
    exact Decidable.byContradiction (fun hsome => hnot (begins_of_takeContents? hsome))

theorem spans_of_takeContents? {ts contents rest : List Token}
    (h : takeContents? ts = some (contents, rest)) : Spans contents rest := by
  have hsome : takeContents? ts ≠ none := by
    rw [h]
    exact Option.some_ne_none _
  obtain ⟨lead, after, rfl, hlead⟩ := begins_of_takeContents? hsome
  rw [takeContents?_of_leads hlead] at h
  obtain ⟨rfl, rfl⟩ := Prod.mk.inj (Option.some.inj h)
  obtain ⟨body, t, rest, hsplit, hbody, ht⟩ | ⟨hsplit, hbody⟩ := splitAfterEnd_cases after
  · rw [hsplit]
    exact .ended hlead hbody ht rest
  · rw [hsplit]
    exact .unended hlead hbody

/-! All rows -/

theorem spans_takeFrom (index : Nat) (ts : List Token) (before after : List Row) (r : Row)
    (hrows : (takeFrom index ts).1 = before ++ r :: after) :
    r.index = index + before.length ∧
      Spans r.contents (after.flatMap contents ++ (takeFrom index ts).2) := by
  fun_induction takeFrom index ts generalizing before with
  | case1 index ts contents rest h rows rest' hrec ih =>
    cases before with
    | nil =>
      obtain ⟨rfl, rfl⟩ := List.cons.inj hrows
      have happend := contents_takeFrom (index + 1) rest
      rw [hrec] at happend
      rw [happend]
      exact ⟨rfl, spans_of_takeContents? h⟩
    | cons first before =>
      rw [hrec] at ih
      obtain ⟨hindex, hspans⟩ := ih before (List.cons.inj hrows).2
      refine ⟨?_, hspans⟩
      rw [hindex, List.length_cons]
      omega
  | case2 index ts h => exact absurd hrows (by simp)

theorem not_begins_takeFrom (index : Nat) (ts : List Token) : ¬Begins (takeFrom index ts).2 := by
  fun_induction takeFrom index ts with
  | case1 index ts contents rest h rows rest' hrec ih =>
    rwa [hrec] at ih
  | case2 index ts h => exact takeContents?_eq_none_iff.1 h

theorem length_takeFrom_lt_iff (index : Nat) (ts : List Token) :
    (takeFrom index ts).2.length < ts.length ↔ Begins ts := by
  cases h : takeContents? ts with
  | none =>
    rw [takeFrom_of_none h]
    exact iff_of_false (Nat.lt_irrefl _) (takeContents?_eq_none_iff.1 h)
  | some taken =>
    have hrest := length_lt_of_takeContents? h
    have hlater := (takeFrom_suffix (index + 1) taken.2).length_le
    have hbegins : Begins ts := begins_of_takeContents? (by simp [h])
    rw [takeFrom_of_some h]
    exact iff_of_true (Nat.lt_of_le_of_lt hlater hrest) hbegins

/-- The rows of a table divide up the tokens that are consumed, and as many tokens are consumed as
there are rows to take. -/
theorem take_partition (ts : List Token) :
    ∃ rows consumed, take ts = (rows, ts.drop consumed) ∧ consumed ≤ ts.length ∧
      rows.flatMap contents = ts.take consumed ∧
      (∀ before r after, rows = before ++ r :: after →
        r.index = before.length ∧
          Spans r.contents (after.flatMap contents ++ ts.drop consumed)) ∧
      ¬Begins (ts.drop consumed) ∧ (consumed = 0 ↔ ¬Begins ts) := by
  have happend := contents_take ts
  have hspans := spans_takeFrom 0 ts
  have hlast := not_begins_takeFrom 0 ts
  have hbegins := length_takeFrom_lt_iff 0 ts
  have htake : takeFrom 0 ts = take ts := rfl
  rw [htake] at hspans hlast hbegins
  generalize take ts = table at happend hspans hlast hbegins
  obtain ⟨rows, rest⟩ := table
  dsimp only at happend hspans hlast hbegins
  have hlength := congrArg List.length happend
  rw [List.length_append] at hlength
  have hdrop : ts.drop (rows.flatMap contents).length = rest := by
    rw [← happend, List.drop_left]
  have hprefix : ts.take (rows.flatMap contents).length = rows.flatMap contents := by
    rw [← happend, List.take_left]
  refine ⟨rows, (rows.flatMap contents).length, ?_, by omega, hprefix.symm, ?_, ?_, ?_⟩
  · rw [hdrop]
  · intro before r after hrows
    rw [hdrop, ← Nat.zero_add before.length]
    exact hspans before after r hrows
  · rwa [hdrop]
  · rw [← hbegins]
    omega

end RichText.Row
