import Mathlib.Data.List.TakeWhile
import GoVite.Spec.Dex.Dividend

/-! Amounts by period, read by `amountAt`: a change replaces what is read from its period on. -/

namespace GoVite.Dex
open KeyStore List Store

variable {e : AmountByPeriod} {entries : List AmountByPeriod} {threshold p c : ℕ}

section Reading

/-- What is read for a period: the amount of the last entry that is not after it. -/
def amountAt (entries : List AmountByPeriod) (q : ℕ) : ℕ :=
  ((entries.takeWhile fun e => e.period ≤ q).getLast?.map AmountByPeriod.amount).getD 0

def lastAmount (entries : List AmountByPeriod) : ℕ := (entries.getLast?.map AmountByPeriod.amount).getD 0

/-- An amount below the threshold does not count. -/
def counted (threshold amount : ℕ) : ℕ := if threshold ≤ amount then amount else 0

/-- Entries with increasing periods, none after the current one. -/
structure Chronological (current : ℕ) (entries : List AmountByPeriod) : Prop where
  increasing : entries.Pairwise fun a b => a.period < b.period
  past : ∀ e ∈ entries, e.period ≤ current

variable {current q : ℕ}

@[simp] theorem counted_zero (threshold : ℕ) : counted threshold 0 = 0 := by simp [counted]

@[simp] theorem amountAt_nil (q : ℕ) : amountAt [] q = 0 := rfl

@[simp] theorem lastAmount_nil : lastAmount [] = 0 := rfl

@[simp] theorem lastAmount_append (entries : List AmountByPeriod) (e : AmountByPeriod) :
    lastAmount (entries ++ [e]) = e.amount := by simp [lastAmount]

theorem amountAt_of_past (h : ∀ e ∈ entries, e.period ≤ q) : amountAt entries q = lastAmount entries := by
  rw [amountAt, takeWhile_eq_self_iff.2 (by simpa using h), lastAmount]

/-- An entry newer than the others is read from its own period on. -/
theorem amountAt_append (x : ℕ) (h : ∀ e ∈ entries, e.period < c) :
    amountAt (entries ++ [⟨c, x⟩]) q = if c ≤ q then x else amountAt entries q := by
  split_ifs with hq
  · have hpast : ∀ e ∈ entries ++ [⟨c, x⟩], e.period ≤ q :=
      forall_mem_concat.2 ⟨fun e he => (h e he).le.trans hq, hq⟩
    rw [amountAt_of_past hpast, lastAmount_append]
  · have hlast : [(⟨c, x⟩ : AmountByPeriod)].takeWhile (fun e => e.period ≤ q) = [] :=
      takeWhile_cons_of_neg (by simpa using hq)
    rw [amountAt, amountAt, takeWhile_append, hlast]
    split_ifs with hall
    · rw [append_nil, ( takeWhile_prefix _).eq_of_length hall]
    · rfl

/-- Entries before one that is itself not after the period are not read. -/
theorem amountAt_append_cons {former : List AmountByPeriod} (h : ∀ x ∈ former, x.period ≤ q)
    (he : e.period ≤ q) : amountAt (former ++ e :: entries) q = amountAt (e :: entries) q := by
  have hformer : former.takeWhile (fun e => e.period ≤ q) = former := takeWhile_eq_self_iff.2 (by simpa using h)
  rw [amountAt, amountAt, takeWhile_append, hformer, takeWhile_cons_of_pos (by simpa using he)]
  simp [getLast?_cons]

theorem Chronological.mono (h : Chronological c entries) (hle : c ≤ current) : Chronological current entries :=
  ⟨h.increasing, fun e he => (h.past e he).trans hle⟩

variable {kept : List AmountByPeriod} (h : Chronological c entries)
include h

theorem Chronological.sublist (hs : kept.Sublist entries) : Chronological c kept :=
  ⟨h.increasing.sublist hs, fun e he => h.past e (hs.subset he)⟩

theorem Chronological.suffix (hs : kept <:+ entries) : Chronological c kept :=
  h.sublist hs.sublist

omit h in
theorem Chronological.nil (c : ℕ) : Chronological c [] := ⟨List.Pairwise.nil, by simp⟩

theorem Chronological.amountAt (hq : c ≤ q) : amountAt entries q = lastAmount entries :=
  amountAt_of_past fun e he => (h.past e he).trans hq

theorem Chronological.append (hc : ∀ e ∈ entries, e.period < c) (x : ℕ) : Chronological c (entries ++ [⟨c, x⟩]) where
  increasing := pairwise_concat.2 ⟨h.increasing, hc⟩
  past := forall_mem_concat.2 ⟨h.past, le_rfl⟩

theorem Chronological.split {last : AmountByPeriod} (hlast : entries.getLast? = some last) :
    entries = entries.dropLast ++ [last] ∧ ∀ e ∈ entries.dropLast, e.period < last.period := by
  have heq : entries = entries.dropLast ++ [last] := (dropLast_append_getLast? last hlast).symm
  refine ⟨heq, fun e he => ?_⟩
  have hinc := h.increasing
  rw [heq] at hinc
  exact (pairwise_append.1 hinc).2.2 e he last (mem_singleton_self last)

/-- Without an entry of the current period all are before it. -/
theorem Chronological.lt_of_last (hc : ∀ last, entries.getLast? = some last → last.period ≠ c) :
    ∀ e ∈ entries, e.period < c := by
  intro e he
  obtain ⟨last, hlast⟩ := Option.isSome_iff_exists.1 (getLast?_isSome.2 (ne_nil_of_mem he))
  obtain ⟨heq, hinit⟩ := h.split hlast
  have hlt : last.period < c := lt_of_le_of_ne (h.past last (mem_of_getLast? hlast)) (hc last hlast)
  rw [heq] at he
  exact forall_mem_concat.2 ⟨fun e he => (hinit e he).trans hlt, hlt⟩ e he

end Reading

variable {r : UserChange}

section Changing
variable {last : AmountByPeriod}

structure Writes (c x : ℕ) (entries entries' : List AmountByPeriod) : Prop where
  chronological : Chronological c entries'
  amountAt : ∀ q, amountAt entries' q = if c ≤ q then x else amountAt entries q

theorem Writes.append (h : Chronological c entries) (hc : ∀ last, entries.getLast? = some last → last.period ≠ c) (x : ℕ) :
    Writes c x entries (entries ++ [⟨c, x⟩]) :=
  ⟨h.append (h.lt_of_last hc) x, fun q => amountAt_append x (h.lt_of_last hc)⟩

theorem Writes.replaceLast (h : Chronological c entries) (hlast : entries.getLast? = some last) (hc : last.period = c)
    (x : ℕ) : Writes c x entries (replaceLast entries x) := by
  obtain ⟨heq, hinit⟩ := h.split hlast
  have hbefore : ∀ e ∈ entries.dropLast, e.period < c := fun e he => hc ▸ hinit e he
  have hformer : Chronological c entries.dropLast :=
    ⟨h.increasing.sublist (dropLast_sublist _), fun e he => (hbefore e he).le⟩
  have hreplaced : Dex.replaceLast entries x = entries.dropLast ++ [⟨c, x⟩] := by simp [Dex.replaceLast, hlast, hc]
  have hold : entries = entries.dropLast ++ [⟨c, last.amount⟩] := by rw [← hc]; exact heq
  rw [hreplaced]
  refine ⟨hformer.append hbefore x, fun q => ?_⟩
  rw [amountAt_append x hbefore]
  split_ifs with hq
  · rfl
  · rw [hold, amountAt_append last.amount hbefore, if_neg hq, ← hold]

/-- What the first half of a change has to do: write the new amount as far as it counts, and give the
sum the difference of what counts. -/
structure ChangesUser (threshold c newAmt : ℕ) (entries : List AmountByPeriod) (r : UserChange) : Prop where
  chronological : Chronological c r.entries
  amountAt : ∀ q, counted threshold (amountAt r.entries q) =
    if c ≤ q then counted threshold newAmt else counted threshold (amountAt entries q)
  sumChange : r.sumChange = counted threshold newAmt - counted threshold (lastAmount entries)
  needUpdate : r.needUpdate = false → r.entries = entries

variable {newAmt : ℕ}

theorem Writes.changesUser (h : Writes c newAmt entries r.entries)
    (hsum : r.sumChange = counted threshold newAmt - counted threshold (lastAmount entries)) (hupdate : r.needUpdate = true) :
    ChangesUser threshold c newAmt entries r := by
  refine ⟨h.chronological, fun q => ?_, hsum, fun hfalse => absurd (hfalse.symm.trans hupdate) Bool.false_ne_true⟩
  rw [h.amountAt q]
  split_ifs <;> rfl

variable (h : Chronological c entries)
include h

/-- Entries may stay as they are if neither the old nor the new amount counts. -/
theorem ChangesUser.unchanged (hnew : ¬threshold ≤ newAmt)
    (hlast : counted threshold (lastAmount entries) = 0) : ChangesUser threshold c newAmt entries ⟨entries, 0, false⟩ := by
  have hzero : counted threshold newAmt = 0 := if_neg hnew
  refine ⟨h, fun q => ?_, by simp [hzero, hlast], fun _ => rfl⟩
  split_ifs with hq
  · rw [h.amountAt hq, hlast, hzero]
  · rfl

omit h in
/-- A single entry of the current period may be cleared if the new amount does not count. -/
theorem ChangesUser.cleared {sumChange : ℤ} (hc : last.period = c) (hnew : ¬threshold ≤ newAmt)
    (hsum : sumChange = -counted threshold last.amount) : ChangesUser threshold c newAmt [last] ⟨[], sumChange, true⟩ := by
  have hzero : counted threshold newAmt = 0 := if_neg hnew
  refine ⟨Chronological.nil c, fun q => ?_, by simp [hzero, hsum, lastAmount], fun h => by cases h⟩
  split_ifs with hq
  · simp [hzero]
  · have hnone : Dex.amountAt [last] q = 0 := by
      rw [Dex.amountAt, takeWhile_cons_of_neg (by simpa [hc] using hq)]
      rfl
    rw [hnone, amountAt_nil]

theorem changeUserAmount_changes {oldAmt : ℕ} (newAmt : ℕ)
    (hold : counted threshold (lastAmount entries) = counted threshold oldAmt) :
    ChangesUser threshold c newAmt entries (changeUserAmount threshold c entries (newAmt - oldAmt) newAmt) := by
  unfold changeUserAmount
  cases hlast : entries.getLast? with
  | none =>
    obtain rfl := getLast?_eq_none_iff.1 hlast
    dsimp only
    split_ifs with hnew
    · exact (Writes.append h (by simp) newAmt).changesUser (by simp [counted, hnew]) rfl
    · exact .unchanged h hnew (by simp)
  | some last =>
    have hamount : lastAmount entries = last.amount := by simp [lastAmount, hlast]
    -- what the sum gets if the new amount counts
    have hvalid : threshold ≤ newAmt →
        (if threshold ≤ last.amount then (newAmt - oldAmt : ℤ) else newAmt) =
          counted threshold newAmt - counted threshold (lastAmount entries) := by
      intro hnew
      simp only [counted, hnew, if_true] at hold ⊢
      split_ifs at hold ⊢ <;> omega
    -- and if it does not
    have hinvalid : ¬threshold ≤ newAmt →
        (if threshold ≤ last.amount then (-last.amount : ℤ) else 0) =
          counted threshold newAmt - counted threshold (lastAmount entries) := by
      intro hnew
      simp only [hamount, counted, hnew, if_false]
      split_ifs <;> simp
    dsimp only
    by_cases hc : last.period = c
    · rw [if_pos hc]
      by_cases hnew : threshold ≤ newAmt
      · rw [if_pos hnew]
        exact (Writes.replaceLast h hlast hc newAmt).changesUser (hvalid hnew) rfl
      · rw [if_neg hnew]
        by_cases hlen : 1 < entries.length
        · rw [if_pos hlen]
          exact (Writes.replaceLast h hlast hc newAmt).changesUser (hinvalid hnew) rfl
        · have hsingle : entries = [last] := by
            obtain ⟨heq, -⟩ := h.split hlast
            have hinit : entries.dropLast = [] := length_eq_zero_iff.1 (by rw [length_dropLast]; omega)
            rw [heq, hinit, nil_append]
          rw [hsingle]
          exact .cleared hc hnew (by rw [hinvalid hnew, hamount]; simp [counted, hnew])
    · rw [if_neg hc]
      have happend := Writes.append h (by rintro _ hl; rw [Option.mem_unique hlast hl] at hc; exact hc) newAmt
      by_cases hnew : threshold ≤ newAmt
      · rw [if_pos hnew]
        exact happend.changesUser (hvalid hnew) rfl
      · rw [if_neg hnew]
        by_cases hcount : threshold ≤ last.amount
        · rw [if_pos hcount]
          refine happend.changesUser ?_ rfl
          rw [← hinvalid hnew, if_pos hcount]
        · rw [if_neg hcount]
          exact .unchanged h hnew (by rw [hamount, counted, if_neg hcount])

theorem Writes.self : Writes c (lastAmount entries) entries entries := by
  refine ⟨h, fun q => ?_⟩
  split_ifs with hq
  · exact h.amountAt hq
  · rfl

/-- The sum is written if it does not become negative. -/
theorem changeSum_ok (sumChange : ℤ) (hsum : 0 ≤ lastAmount entries + sumChange) :
    ∃ entries', changeSum c entries sumChange = .ok entries' ∧
      Writes c (lastAmount entries + sumChange).toNat entries entries' := by
  unfold changeSum
  by_cases hzero : sumChange = 0
  · refine ⟨entries, if_pos hzero, ?_⟩
    rw [hzero, add_zero]
    exact .self h
  rw [if_neg hzero]
  cases hlast : entries.getLast? with
  | none =>
    obtain rfl := getLast?_eq_none_iff.1 hlast
    rw [lastAmount_nil, Nat.cast_zero, zero_add] at hsum ⊢
    exact ⟨_, if_pos (lt_of_le_of_ne hsum (Ne.symm hzero)), Writes.append h (by simp) _⟩
  | some last =>
    have hamount : lastAmount entries = last.amount := by simp [lastAmount, hlast]
    rw [hamount] at hsum ⊢
    dsimp only
    rw [if_neg (not_lt.2 hsum)]
    by_cases hc : last.period = c
    · exact ⟨_, if_pos hc, Writes.replaceLast h hlast hc _⟩
    · refine ⟨_, if_neg hc, Writes.append h ?_ _⟩
      intro last' hlast'
      rwa [← Option.mem_unique hlast hlast']

end Changing

section Matching
variable {checkDelete : Bool}

theorem matchByPeriod_amount : (matchByPeriod threshold entries p checkDelete).amount = amountAt entries p := by
  unfold matchByPeriod amountAt
  dsimp only
  cases (entries.takeWhile fun e => e.period ≤ p).getLast? with
  | none => rfl
  | some last =>
    dsimp only
    by_cases hzero : last.amount = 0
    · simp [hzero]
    · rw [if_neg hzero]
      rfl

/-- A match splits the history at the last entry that is not after the period. -/
structure MatchedAt (threshold p : ℕ) (checkDelete : Bool) (entries : List AmountByPeriod) (m : PeriodMatch)
    (former rest : List AmountByPeriod) (last : AmountByPeriod) : Prop where
  split : entries = former ++ last :: rest
  former_le : ∀ e ∈ former, e.period ≤ p
  last_le : last.period ≤ p
  amount : m.amount = last.amount
  amount_ne : last.amount ≠ 0
  /-- The matched entry is dropped as well if the next period has its own. -/
  kept : m.entries = last :: rest ∨ ∃ next rest', rest = next :: rest' ∧ next.period = p + 1 ∧ m.entries = rest
  needDelete : m.needDelete = (checkDelete && canBeDelete threshold m.entries)

theorem matchByPeriod_found (hfound : (matchByPeriod threshold entries p checkDelete).found = true) :
    ∃ former rest last,
      MatchedAt threshold p checkDelete entries (matchByPeriod threshold entries p checkDelete) former rest last := by
  have hsplit := takeWhile_append_dropWhile (p := fun e => decide (e.period ≤ p)) (l := entries)
  have hupTo : ∀ e ∈ entries.takeWhile fun e => e.period ≤ p, e.period ≤ p := by
    intro e he
    simpa using mem_takeWhile_imp he
  unfold matchByPeriod at hfound ⊢
  dsimp only at hfound ⊢
  generalize entries.takeWhile (fun e => decide (e.period ≤ p)) = upTo at hsplit hupTo hfound ⊢
  generalize entries.dropWhile (fun e => decide (e.period ≤ p)) = rest at hsplit
  cases hlast : upTo.getLast? with
  | none => simp [hlast] at hfound
  | some last =>
    rw [hlast] at hfound
    dsimp only at hfound ⊢
    have hne : ¬last.amount = 0 := by
      intro hzero
      simp [hzero] at hfound
    have hinit : upTo = upTo.dropLast ++ [last] := (dropLast_append_getLast? last hlast).symm
    have heq : entries = upTo.dropLast ++ last :: rest := by
      rw [← hsplit]
      nth_rewrite 1 [hinit]
      rw [append_assoc, singleton_append]
    have hkept : entries.drop (upTo.length - 1) = last :: rest := by
      rw [heq, ← length_dropLast, drop_left]
    rw [if_neg hne, hkept]
    refine ⟨upTo.dropLast, rest, last, heq, fun e he => hupTo e (mem_of_mem_dropLast he),
      hupTo last (mem_of_getLast? hlast), rfl, hne, ?_, rfl⟩
    cases rest with
    | nil => exact .inl rfl
    | cons next rest =>
      split_ifs with hnext
      · exact .inr ⟨next, rest, rfl, by simpa using hnext, rfl⟩
      · exact .inl rfl

theorem matchByPeriod_pos (hfound : (matchByPeriod threshold entries p checkDelete).found = true) :
    0 < (matchByPeriod threshold entries p checkDelete).amount := by
  obtain ⟨former, rest, last, hm⟩ := matchByPeriod_found hfound
  rw [hm.amount]
  exact Nat.pos_of_ne_zero hm.amount_ne

/-- A history keeps what counts after a period. -/
structure KeepsAfter (threshold p : ℕ) (entries entries' : List AmountByPeriod) : Prop where
  suffix : entries' <:+ entries
  amountAt : ∀ q, p < q → counted threshold (amountAt entries' q) = counted threshold (amountAt entries q)

theorem KeepsAfter.refl (threshold p : ℕ) (entries : List AmountByPeriod) : KeepsAfter threshold p entries entries :=
  ⟨suffix_rfl, fun _ _ => rfl⟩

variable {entries' entries'' : List AmountByPeriod}

theorem KeepsAfter.trans (h : KeepsAfter threshold p entries entries')
    (h' : KeepsAfter threshold p entries' entries'') : KeepsAfter threshold p entries entries'' :=
  ⟨h'.suffix.trans h.suffix, fun q hq => (h'.amountAt q hq).trans (h.amountAt q hq)⟩

/-- Entries before one of the period or of the next are obsolete. -/
theorem KeepsAfter.drop (former : List AmountByPeriod) {rest : List AmountByPeriod} (hformer : ∀ x ∈ former, x.period ≤ p + 1)
    (he : e.period ≤ p + 1) : KeepsAfter threshold p (former ++ e :: rest) (e :: rest) := by
  refine ⟨suffix_append _ _, fun q hq => ?_⟩
  rw [amountAt_append_cons (fun x hx => (hformer x hx).trans hq) (he.trans hq)]

theorem matchByPeriod_keeps (hfound : (matchByPeriod threshold entries p checkDelete).found = true) (bound : ℕ) :
    KeepsAfter bound p entries (matchByPeriod threshold entries p checkDelete).entries := by
  obtain ⟨former, rest, last, hm⟩ := matchByPeriod_found hfound
  have hlast : last.period ≤ p + 1 := hm.last_le.trans (Nat.le_succ p)
  have hfirst : KeepsAfter bound p entries (last :: rest) := by
    rw [hm.split]
    exact .drop former (fun e he => (hm.former_le e he).trans (Nat.le_succ p)) hlast
  rcases hm.kept with hkept | ⟨next, rest', hrest, hnext, hkept⟩
  · rw [hkept]
    exact hfirst
  · rw [hkept]
    rw [hrest] at hfirst ⊢
    exact hfirst.trans (.drop [last] (by simpa using hlast) hnext.le)

theorem matchByPeriod_needDelete : (matchByPeriod threshold entries p checkDelete).needDelete =
    (checkDelete && canBeDelete threshold (matchByPeriod threshold entries p checkDelete).entries) := by
  unfold matchByPeriod
  dsimp only
  cases (entries.takeWhile fun e => e.period ≤ p).getLast? with
  | none => rfl
  | some last =>
    dsimp only
    split_ifs <;> rfl

/-- A history that may be deleted is below the threshold in every period. -/
theorem amountAt_lt_of_canBeDelete (h : canBeDelete threshold entries = true) (q : ℕ) : amountAt entries q < threshold := by
  match entries with
  | [] => cases h
  | [e] =>
    have hlt : e.amount < threshold := by simpa [canBeDelete] using h
    by_cases he : e.period ≤ q
    · rw [amountAt_of_past (by simpa using he)]
      exact hlt
    · rw [amountAt, takeWhile_cons_of_neg (by simpa using he)]
      exact (Nat.zero_le _).trans_lt hlt
  | _ :: _ :: _ => cases h

end Matching

section Trimming
variable {h h' : Histories} {address : Address}

/-- A job of period `p` may drop what is read for that period and before it, and keeps the rest. -/
structure Trims (threshold p : ℕ) (h h' : Histories) : Prop where
  users : ∀ a, KeepsAfter threshold p (h.users.getD a []) (h'.users.getD a [])
  sums : KeepsAfter 0 p h.sums h'.sums

theorem Trims.refl (threshold p : ℕ) (h : Histories) : Trims threshold p h h :=
  ⟨fun _ => .refl _ _ _, .refl _ _ _⟩

@[simp] theorem saveMatchedSum_users (h : Histories) (m : PeriodMatch) : (h.saveMatchedSum m).users = h.users := by
  unfold Histories.saveMatchedSum
  split_ifs <;> rfl

theorem Trims.saveMatchedSum (hfound : (matchByPeriod threshold h.sums p false).found = true) :
    Trims threshold p h (h.saveMatchedSum (matchByPeriod threshold h.sums p false)) := by
  unfold Histories.saveMatchedSum
  split_ifs
  · exact ⟨fun _ => .refl _ _ _, matchByPeriod_keeps hfound 0⟩
  · exact .refl _ _ _

/-- Trimming the history of one user, as it was when the job began. -/
theorem Trims.saveMatched (ht : Trims threshold p h h') (hmem : h.users.get? address = some entries)
    (hfound : (matchByPeriod threshold entries p true).found = true) :
    Trims threshold p h (h'.saveMatched address (matchByPeriod threshold entries p true)) := by
  have hentries : h.users.getD address [] = entries := getD_of_get? hmem []
  have hkeeps := matchByPeriod_keeps hfound threshold
  unfold Histories.saveMatched
  split_ifs with hdelete hupdate
  · refine ⟨fun a => ?_, ht.sums⟩
    rw [getD_erase]
    split_ifs with ha
    · rw [ha, hentries]
      refine ⟨nil_suffix, fun q hq => ?_⟩
      have hcan := (Bool.and_eq_true_iff.1 (matchByPeriod_needDelete ▸ hdelete)).2
      rw [amountAt_nil, counted_zero, ← hkeeps.amountAt q hq, counted, if_neg (amountAt_lt_of_canBeDelete hcan q).not_ge]
    · exact ht.users a
  · refine ⟨fun a => ?_, ht.sums⟩
    rw [getD_set]
    split_ifs with ha
    · rw [ha, hentries]
      exact hkeeps
    · exact ht.users a
  · exact ht

end Trimming

section Tracking
variable {h h' : Histories} {amounts : Store Address ℕ} {jobs : List ℕ}

/-- What the users hold of an amount that counts in period `q`. -/
def Histories.countedAt (h : Histories) (threshold q : ℕ) : ℕ :=
  h.users.sum fun _ entries => counted threshold (amountAt entries q)

/-- The histories agree with the amounts of the users and with each other, in every period after those
that a job has processed. -/
structure Tracks (threshold : ℕ) (h : Histories) (amounts : Store Address ℕ) (c : ℕ) (jobs : List ℕ) : Prop where
  users : ∀ a, Chronological c (h.users.getD a [])
  sums : Chronological c h.sums
  recorded : ∀ a, counted threshold (lastAmount (h.users.getD a [])) = counted threshold (amounts.getD a 0)
  matched : ∀ q, (∀ p ∈ jobs, p < q) → amountAt h.sums q = h.countedAt threshold q
  past : ∀ p ∈ jobs, p < c

theorem Tracks.empty (threshold c : ℕ) : Tracks threshold {} .empty c [] where
  users a := .nil c
  sums := .nil c
  recorded a := rfl
  matched q _ := rfl
  past := by simp

section
variable (ht : Tracks threshold h amounts c jobs)
include ht

theorem Tracks.later {c' : ℕ} (hle : c ≤ c') : Tracks threshold h amounts c' jobs :=
  ⟨fun a => (ht.users a).mono hle, ht.sums.mono hle, ht.recorded, ht.matched, fun p hp => (ht.past p hp).trans_le hle⟩

/-- The last sum is what the users hold at the end of their histories. -/
theorem Tracks.lastAmount_eq :
    lastAmount h.sums = h.users.sum fun _ entries => counted threshold (lastAmount entries) := by
  rw [← ht.sums.amountAt le_rfl, ht.matched c ht.past]
  refine sum_congr fun a entries ha => ?_
  have hentries : h.users.getD a [] = entries := getD_of_get? ha []
  rw [← hentries, (ht.users a).amountAt le_rfl]

theorem Tracks.lastAmount_amounts : lastAmount h.sums = amounts.sum fun _ x => counted threshold x := by
  rw [ht.lastAmount_eq]
  exact sum_eq_of_getD [] 0 (by simp) (by simp) ht.recorded

theorem Tracks.trim (htrim : Trims threshold p h h') (hp : p < c) : Tracks threshold h' amounts c (p :: jobs) := by
  have hlast : ∀ a, counted threshold (lastAmount (h'.users.getD a [])) = counted threshold (lastAmount (h.users.getD a [])) := by
    intro a
    rw [← (ht.users a).amountAt le_rfl, ← ((ht.users a).suffix (htrim.users a).suffix).amountAt le_rfl]
    exact (htrim.users a).amountAt c hp
  constructor
  case users => exact fun a => (ht.users a).suffix (htrim.users a).suffix
  case sums => exact ht.sums.suffix htrim.sums.suffix
  case recorded => exact fun a => (hlast a).trans (ht.recorded a)
  case past => exact forall_mem_cons.2 ⟨hp, ht.past⟩
  case matched =>
    intro q hq
    obtain ⟨hpq, hjobs⟩ := forall_mem_cons.1 hq
    have hsums : amountAt h'.sums q = amountAt h.sums q := by simpa [counted] using htrim.sums.amountAt q hpq
    rw [hsums, ht.matched q hjobs]
    exact sum_eq_of_getD [] [] (by simp) (by simp) fun a => ((htrim.users a).amountAt q hpq).symm

end

theorem saveUser_getD {address : Address}
    (hupdate : r.needUpdate = false → r.entries = h.users.getD address []) (a : Address) :
    (h.saveUser address r).users.getD a [] = if a = address then r.entries else h.users.getD a [] := by
  unfold Histories.saveUser
  split_ifs with hset ha herase ha ha
  · rw [ha, getD_set_self]
  · rw [getD_set, if_neg ha]
  · rw [ha, getD_erase, if_pos rfl, herase.1]
  · rw [getD_erase, if_neg ha]
  · rw [ha]
    by_cases hempty : r.entries = []
    · rw [hempty]
      by_contra hne
      exact herase ⟨hempty, hne⟩
    · have hfalse : r.needUpdate = false := by
        cases hn : r.needUpdate
        · rfl
        · exact absurd ⟨hempty, hn⟩ hset
      exact (hupdate hfalse).symm
  · rfl

/-- A change by the difference of the amounts succeeds and is tracked. -/
theorem Tracks.change (ht : Tracks threshold h amounts c jobs) (address : Address) (newAmt : ℕ) :
    ∃ h', h.change threshold c address (newAmt - amounts.getD address 0) newAmt = .ok h' ∧
      Tracks threshold h' (amounts.set address newAmt) c jobs := by
  have hr := changeUserAmount_changes (ht.users address) newAmt (ht.recorded address)
  set r := changeUserAmount threshold c (h.users.getD address []) (newAmt - amounts.getD address 0) newAmt with hrdef
  have husers := saveUser_getD hr.needUpdate
  -- the sum covers what the user held
  have hcover : counted threshold (lastAmount (h.users.getD address [])) ≤ lastAmount h.sums := by
    rw [ht.lastAmount_eq]
    exact h.users.le_sum_getD address [] (f := fun _ entries => counted threshold (lastAmount entries)) (by simp)
  obtain ⟨sums, hsums, hwrites⟩ := changeSum_ok ht.sums r.sumChange (by rw [hr.sumChange]; omega)
  refine ⟨{ h.saveUser address r with sums := sums }, by rw [Histories.change, hsums]; rfl, ?_⟩
  constructor
  case users =>
    intro a
    rw [husers]
    split_ifs
    · exact hr.chronological
    · exact ht.users a
  case sums => exact hwrites.chronological
  case recorded =>
    intro a
    rw [husers, getD_set]
    split_ifs
    · rw [← hr.chronological.amountAt le_rfl, hr.amountAt, if_pos le_rfl]
    · exact ht.recorded a
  case past => exact ht.past
  case matched =>
    intro q hq
    have hmatched := ht.matched q hq
    have hsum := sum_add_of_getD_eq (s := h.users) address []
      (f := fun _ entries => counted threshold (amountAt entries q)) (by simp)
      fun k hk => by rw [husers, if_neg hk]
    rw [husers, if_pos rfl, hr.amountAt q] at hsum
    have hnow : Histories.countedAt { h.saveUser address r with sums := sums } threshold q =
        (h.saveUser address r).users.sum fun _ entries => counted threshold (amountAt entries q) := rfl
    rw [hwrites.amountAt q]
    unfold Histories.countedAt at hmatched
    split_ifs at hsum ⊢ with hc
    · rw [(ht.users address).amountAt hc] at hsum
      rw [ht.sums.amountAt hc] at hmatched
      rw [hr.sumChange]
      omega
    · omega

end Tracking
end GoVite.Dex
