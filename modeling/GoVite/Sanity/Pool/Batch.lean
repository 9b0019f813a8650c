import GoVite.Lib.Except
import GoVite.Spec.Pool.Batch

/-! What a call on a batch does: it fails and changes nothing, or it puts its item at the end of one bucket. -/

namespace GoVite.Pool
open KeyStore ExceptRules Option Function Level

variable {chain : ChainReader} {p p' : Batch} {b : Item} {i : ℕ} {l l' tmp : Level} {o : Option Address}

theorem bucketAdd_cases (bs : List Item) (b : Item) :
    (bucketAdd bs b = .ok (bs ++ [b]) ∧ ∀ last, bs.getLast? = some last → last.hash = b.prevHash) ∨
      (bucketAdd bs b = .error .prevAndHash ∧ bs ≠ []) := by
  unfold bucketAdd
  cases hlast : bs.getLast? with
  | none =>
    rw [List.getLast?_eq_none_iff] at hlast
    subst hlast
    exact .inl ⟨rfl, nofun⟩
  | some last =>
    dsimp only
    by_cases hh : last.hash = b.prevHash
    · rw [if_neg (not_not.mpr hh)]
      refine .inl ⟨rfl, ?_⟩
      intro last' h
      obtain rfl := some.inj h
      exact hh
    · rw [if_pos hh]
      refine .inr ⟨rfl, ?_⟩
      rintro rfl
      cases hlast

/-- The level `l'` is `l` with the item at the end of the bucket of its owner. -/
structure Adds (l : Level) (b : Item) (l' : Level) : Prop where
  closed : l'.closed = l.closed
  isSnapshot : l'.isSnapshot = l.isSnapshot
  bucket : ∀ o, l'.bucket o = if o = b.owner then l.bucket o ++ [b] else l.bucket o
  prev : ∀ last, (l.bucket b.owner).getLast? = some last → last.hash = b.prevHash

/-- An open level of the kind of the item takes it, unless its bucket ends with another block. -/
theorem Level.add_cases (hopen : l.closed = false) (hkind : l.isSnapshot = true ↔ b.owner = none) :
    (∃ l', l.add b = .ok l' ∧ Adds l b l') ∨ (l.add b = .error .prevAndHash ∧ l.bucket b.owner ≠ []) := by
  obtain ⟨index, closed, buckets⟩ := l
  subst hopen
  cases buckets with
  | account sHash bs =>
    obtain ⟨a, ha⟩ : ∃ a, b.owner = some a := by
      cases howner : b.owner with
      | none => exact absurd (hkind.mpr howner) (by simp [isSnapshot])
      | some a => exact ⟨a, rfl⟩
    have hadd : add ⟨index, false, .account sHash bs⟩ b =
        (bucketAdd (bs.getD a []) b).map fun items => ⟨index, false, .account sHash (bs.set a items)⟩ := by
      simp [add, ha]
    obtain ⟨hok, hprev⟩ | ⟨herr, hne⟩ := bucketAdd_cases (bs.getD a []) b
    · refine .inl ⟨⟨index, false, .account sHash (bs.set a (bs.getD a [] ++ [b]))⟩, by rw [hadd, hok]; rfl,
        rfl, rfl, ?_, ?_⟩
      · intro o
        rw [ha]
        cases o with
        | none => simp [bucket]
        | some a' => by_cases h : a' = a <;> simp [bucket, Store.getD_set, h]
      · rw [ha]
        exact hprev
    · refine .inr ⟨by rw [hadd, herr]; rfl, ?_⟩
      rw [ha]
      exact hne
  | snapshot bu =>
    have ha : b.owner = none := hkind.mp rfl
    have hadd : add ⟨index, false, .snapshot bu⟩ b =
        (bucketAdd bu b).map fun items => ⟨index, false, .snapshot items⟩ := by
      simp [add]
    obtain ⟨hok, hprev⟩ | ⟨herr, hne⟩ := bucketAdd_cases bu b
    · refine .inl ⟨⟨index, false, .snapshot (bu ++ [b])⟩, by rw [hadd, hok]; rfl, rfl, rfl, ?_, ?_⟩
      · intro o
        rw [ha]
        cases o <;> simp [bucket]
      · rw [ha]
        exact hprev
    · refine .inr ⟨by rw [hadd, herr]; rfl, ?_⟩
      rw [ha]
      exact hne

@[simp] theorem Level.new_isSnapshot (s : Bool) (i : ℕ) (h : Option Hash) : (new s i h).isSnapshot = s := by
  cases s <;> rfl

@[simp] theorem Level.new_bucket (s : Bool) (i : ℕ) (h : Option Hash) (o : Option Address) :
    (new s i h).bucket o = [] := by
  cases s <;> cases o <;> rfl

/-- A new level of the kind of the item takes it. -/
theorem Level.new_add (b : Item) (s : Bool) (i : ℕ) (h : Option Hash) (hkind : s = true ↔ b.owner = none) :
    ∃ l', (new s i h).add b = .ok l' ∧ Adds (new s i h) b l' := by
  obtain hok | ⟨-, hne⟩ := add_cases (l := new s i h) rfl (by rwa [new_isSnapshot])
  · exact hok
  · exact absurd (new_bucket s i h b.owner) hne

def Level.close (l : Level) : Level := { l with closed := true }

namespace Batch

theorem get?_addToAll (all : Store Hash OwnerLevel) (keys : List Hash) (ol : OwnerLevel) (k : Hash) :
    (addToAll all keys ol).get? k = if k ∈ keys then some ol else all.get? k := by
  induction keys generalizing all with
  | nil => simp [addToAll]
  | cons key rest ih =>
    have hcons : addToAll all (key :: rest) ol = addToAll (all.set key ol) rest ol := rfl
    rw [hcons, ih, Store.get?_set]
    by_cases hk : k = key <;> by_cases hr : k ∈ rest <;> simp [hr]

/-- Levels that are there and open are closed, down to the last snapshot level. -/
theorem closeLevels_ok (last : ℤ) (n : ℕ) (ls : ℕ → Option Level)
    (h : ∀ j : ℕ, last < j → j < n → ∃ l, ls j = some l ∧ l.closed = false) :
    ∃ ls', closeLevels last ls n = .ok ls' ∧
      ∀ j : ℕ, ls' j = if last < j ∧ j < n then (ls j).map close else ls j := by
  induction n generalizing ls with
  | zero => exact ⟨ls, rfl, by simp⟩
  | succ n ih =>
    by_cases hlast : last < n
    · obtain ⟨l, hl, hopen⟩ := h n hlast (Nat.lt_succ_self n)
      obtain ⟨ls', hls', hget⟩ := ih (update ls n (some (close l))) (by
        intro j hj hjn
        rw [update_of_ne hjn.ne]
        exact h j hj (hjn.trans (Nat.lt_succ_self n)))
      refine ⟨ls', ?_, ?_⟩
      · rw [closeLevels, if_pos hlast, hl]
        dsimp only
        rw [if_neg (by simp [hopen])]
        exact hls'
      · intro j
        rw [hget]
        by_cases hj : j = n
        · subst hj
          simp [hlast, hl]
        · rw [update_of_ne hj]
          have hiff : (last < j ∧ j < n) ↔ (last < j ∧ j < n + 1) := by omega
          simp only [hiff]
    · refine ⟨ls, by rw [closeLevels, if_neg hlast], ?_⟩
      intro j
      rw [if_neg]
      rintro ⟨h1, h2⟩
      omega

/-- Where the levels of a batch stand: none is missing up to the current one, those over the last snapshot
level take accounts and are open, and the account levels below it are closed. -/
structure Shape (p : Batch) : Prop where
  lastSnapshot_ge : -1 ≤ p.lastSnapshot
  lastSnapshot_le : p.lastSnapshot ≤ p.current
  current_lt : p.current < p.maxLevel
  levels : ∀ i : ℕ, (p.ls i).isSome ↔ (i : ℤ) ≤ p.current
  below : ∀ (i : ℕ) l, p.ls i = some l → (i : ℤ) ≤ p.lastSnapshot → l.closed = !l.isSnapshot
  last : ∀ (i : ℕ) l, p.ls i = some l → (i : ℤ) = p.lastSnapshot → l.isSnapshot = true
  above : ∀ (i : ℕ) l, p.ls i = some l → p.lastSnapshot < i → l.closed = false ∧ l.isSnapshot = false
  owners : ∀ k ol, p.all.get? k = some ol → ∃ l, p.ls ol.level = some l ∧ (l.isSnapshot = true ↔ ol.owner = none)

theorem shape_new (max : ℕ) : Shape (newBatch max) := by
  refine ⟨le_rfl, le_rfl, ?_, ?_, nofun, nofun, nofun, ?_⟩
  · change (-1 : ℤ) < max
    omega
  · intro i
    change (none : Option Level).isSome ↔ (i : ℤ) ≤ -1
    simp
    omega
  · intro k ol h
    cases h

theorem Shape.exists_level (hp : Shape p) {i : ℕ} (h : (i : ℤ) ≤ p.current) : ∃ l, p.ls i = some l :=
  isSome_iff_exists.mp ((hp.levels i).mpr h)

theorem Shape.level_le (hp : Shape p) (h : p.ls i = some l) : (i : ℤ) ≤ p.current :=
  (hp.levels i).mp (by rw [h]; rfl)

/-- A reference of an item at level `i` is on the chain, or its block is placed before the item. -/
def ReferenceBefore (chain : ChainReader) (p : Batch) (owner : Option Address) (i : ℕ) (r : Hash) : Prop :=
  (p.all.get? r = none ∧ chain.accountExists r = true) ∨
    ∃ ol, p.all.get? r = some ol ∧ (ol.level < i ∨ ol.level = i ∧ ol.owner = owner)

/-- The item was put at the end of its bucket at level `i`. A snapshot item closes the levels down to the last
snapshot level. -/
structure Placed (chain : ChainReader) (p : Batch) (b : Item) (i : ℕ) (p' : Batch) : Prop where
  maxLevel : p'.maxLevel = p.maxLevel
  lt_max : i < p.maxLevel
  le_next : (i : ℤ) ≤ p.current + 1
  beyond : p.lastSnapshot < i ∨ b.owner = none ∧ (i : ℤ) = p.lastSnapshot
  current : p'.current = if p.current < i then (i : ℤ) else p.current
  top : b.owner = none → p.current ≤ i
  lastSnapshot : p'.lastSnapshot = if b.owner = none then (i : ℤ) else p.lastSnapshot
  level : ∃ base l', base.closed = false ∧ (base.isSnapshot = true ↔ b.owner = none) ∧
    (p.ls i = some base ∨ p.ls i = none ∧ ∀ o, base.bucket o = []) ∧ Adds base b l' ∧
    ∀ j : ℕ, p'.ls j = if j = i then some l' else
      if b.owner = none ∧ p.lastSnapshot < j ∧ j < i then (p.ls j).map close else p.ls j
  all : ∀ k, p'.all.get? k = if k ∈ b.keys then some ⟨b.owner, i⟩ else p.all.get? k
  refs : ∀ r ∈ b.accounts, ReferenceBefore chain p b.owner i r

theorem Shape.placed (hp : Shape p) (h : Placed chain p b i p') : Shape p' := by
  obtain ⟨base, l', hopen, hkind, hbase, hadds, hls⟩ := h.level
  have hge := hp.lastSnapshot_ge
  have hlt := hp.current_lt
  have hltmax := h.lt_max
  have hnext := h.le_next
  have hover := h.beyond
  have hcurrent := h.current
  have hlastSnapshot := h.lastSnapshot
  have hl'open : l'.closed = false := hadds.closed.trans hopen
  have hl'kind : l'.isSnapshot = true ↔ b.owner = none := by rw [hadds.isSnapshot, hkind]
  -- what a level other than `i` was before
  have hother : ∀ {j : ℕ} {l : Level}, j ≠ i → p'.ls j = some l → ∃ l₀, p.ls j = some l₀ ∧
      l.isSnapshot = l₀.isSnapshot ∧
      l.closed = if b.owner = none ∧ p.lastSnapshot < j ∧ j < i then true else l₀.closed := by
    intro j l hj hl
    rw [hls, if_neg hj] at hl
    split at hl
    · obtain ⟨l₀, hl₀, rfl⟩ := map_eq_some_iff.mp hl
      exact ⟨l₀, hl₀, rfl, by rw [if_pos ‹_›]; rfl⟩
    · exact ⟨l, hl, rfl, by rw [if_neg ‹_›]⟩
  have hself : ∀ {l : Level}, p'.ls i = some l → l = l' := by
    intro l hl
    rw [hls, if_pos rfl] at hl
    exact (some.inj hl).symm
  refine ⟨?_, ?_, ?_, ?_, ?_, ?_, ?_, ?_⟩
  · rw [hlastSnapshot]
    split <;> omega
  · rw [hlastSnapshot, hcurrent]
    split <;> split <;> omega
  · rw [hcurrent, h.maxLevel]
    split <;> omega
  · intro j
    have hsome : (p'.ls j).isSome ↔ j = i ∨ (p.ls j).isSome := by
      rw [hls]
      split
      · simp [*]
      · split <;> simp [*]
    rw [hsome, hp.levels, hcurrent]
    split <;> omega
  · intro j l hl hj
    by_cases hji : j = i
    · subst hji
      obtain rfl := hself hl
      have howner : b.owner = none := by
        by_contra hne
        rw [hlastSnapshot, if_neg hne] at hj
        simp only [hne, false_and, or_false] at hover
        omega
      rw [hl'open, hl'kind.mpr howner]
      rfl
    · obtain ⟨l₀, hl₀, hk, hc⟩ := hother hji hl
      rw [hk, hc]
      by_cases hb : (j : ℤ) ≤ p.lastSnapshot
      · rw [if_neg (by omega)]
        exact hp.below j l₀ hl₀ hb
      · have howner : b.owner = none := by
          by_contra hne
          rw [hlastSnapshot, if_neg hne] at hj
          exact hb hj
        rw [if_pos ⟨howner, by omega, by omega⟩, (hp.above j l₀ hl₀ (by omega)).2]
        rfl
  · intro j l hl hj
    by_cases howner : b.owner = none
    · rw [hlastSnapshot, if_pos howner] at hj
      obtain rfl : j = i := by omega
      obtain rfl := hself hl
      exact hl'kind.mpr howner
    · rw [hlastSnapshot, if_neg howner] at hj
      simp only [howner, false_and, or_false] at hover
      obtain ⟨l₀, hl₀, hk, -⟩ := hother (by omega) hl
      rw [hk]
      exact hp.last j l₀ hl₀ hj
  · intro j l hl hj
    by_cases hji : j = i
    · subst hji
      obtain rfl := hself hl
      have howner : b.owner ≠ none := by
        intro hnone
        rw [hlastSnapshot, if_pos hnone] at hj
        omega
      refine ⟨hl'open, ?_⟩
      rw [← Bool.not_eq_true, hl'kind]
      exact howner
    · obtain ⟨l₀, hl₀, hk, hc⟩ := hother hji hl
      have hl₀le := hp.level_le hl₀
      rw [hk, hc]
      by_cases howner : b.owner = none
      · rw [hlastSnapshot, if_pos howner] at hj
        have := h.top howner
        omega
      · rw [hlastSnapshot, if_neg howner] at hj
        rw [if_neg (by simp [howner])]
        exact hp.above j l₀ hl₀ hj
  · intro k ol hk
    rw [h.all] at hk
    split at hk
    · obtain rfl := some.inj hk
      exact ⟨l', by rw [hls, if_pos rfl], hl'kind⟩
    · obtain ⟨l₀, hl₀, howners⟩ := hp.owners k ol hk
      by_cases hji : ol.level = i
      · refine ⟨l', by rw [hls, if_pos hji], ?_⟩
        rw [hji] at hl₀
        obtain hbase | ⟨hnone, -⟩ := hbase
        · rw [hl₀] at hbase
          obtain rfl := some.inj hbase
          rw [hadds.isSnapshot, howners]
        · rw [hl₀] at hnone
          cases hnone
      · rw [hls, if_neg hji, hl₀]
        split
        · exact ⟨close l₀, rfl, howners⟩
        · exact ⟨l₀, rfl, howners⟩

section
variable (chain : ChainReader) (ls : ℕ → Option Level) (hopen : tmp.closed = false) (hadd : tmp.add b = .ok l')
  (hadds : Adds tmp b l') (hls : ∀ j, j ≠ i → ls j = p.ls j)
  (hbase : p.ls i = some tmp ∨ p.ls i = none ∧ ∀ o, tmp.bucket o = []) (hnext : (i : ℤ) ≤ p.current + 1)
  (hmax : i < p.maxLevel) (hrefs : ∀ r ∈ b.accounts, ReferenceBefore chain p b.owner i r)
include hopen hadd hadds hls hbase hnext hmax hrefs

theorem addToSnapshotLevel_ok (hp : Shape p) (howner : b.owner = none) (hkind : tmp.isSnapshot = true)
    (htop : p.current ≤ i) :
    ∃ p', addToSnapshotLevel { p with ls := ls } i tmp b = (p', none) ∧ Placed chain p b i p' := by
  have hle := hp.lastSnapshot_le
  obtain ⟨ls', hclose, hget⟩ := closeLevels_ok p.lastSnapshot i (update ls i (some l')) (by
      intro j hj hji
      rw [update_of_ne hji.ne, hls j hji.ne]
      obtain ⟨l, hl⟩ := hp.exists_level (i := j) (by omega)
      exact ⟨l, hl, (hp.above j l hl hj).1⟩)
  refine ⟨{ p with
    num := p.num + 1
    all := addToAll p.all b.keys ⟨b.owner, i⟩
    ls := ls'
    current := if p.current < i then i else p.current
    lastSnapshot := i }, ?_, rfl, hmax, hnext, by simp only [howner, true_and]; omega, rfl, fun _ => htop,
    by rw [if_pos howner], ?_, get?_addToAll p.all b.keys ⟨b.owner, i⟩, hrefs⟩
  · unfold addToSnapshotLevel
    rw [hadd]
    unfold endSnapshot
    dsimp only [setLevel]
    rw [hclose]
    rfl
  · refine ⟨tmp, l', hopen, by simp [hkind, howner], hbase, hadds, ?_⟩
    intro j
    dsimp only
    rw [hget]
    by_cases hji : j = i
    · simp [hji]
    · rw [update_of_ne hji, hls j hji, if_neg hji]
      simp only [howner, true_and]

theorem addToAccountLevel_ok (howner : b.owner ≠ none) (hkind : tmp.isSnapshot = false) (hover : p.lastSnapshot < i) :
    ∃ p', addToAccountLevel { p with ls := ls } i tmp b = (p', none) ∧ Placed chain p b i p' := by
  refine ⟨{ p with
    num := p.num + 1
    all := addToAll p.all b.keys ⟨b.owner, i⟩
    ls := update ls i (some l')
    current := if p.current < i then i else p.current }, ?_, rfl, hmax, hnext, .inl hover, rfl,
    fun h => absurd h howner, by rw [if_neg howner], ?_, get?_addToAll p.all b.keys ⟨b.owner, i⟩, hrefs⟩
  · unfold addToAccountLevel
    rw [hadd]
    rfl
  · refine ⟨tmp, l', hopen, by simp [hkind, howner], hbase, hadds, ?_⟩
    intro j
    dsimp only
    by_cases hji : j = i
    · simp [hji]
    · rw [update_of_ne hji, hls j hji, if_neg hji, if_neg (by simp [howner])]

end

/-- A call fails and changes nothing, or it places the item. -/
def Answered (chain : ChainReader) (p : Batch) (b : Item) (r : Batch × Option BatchError) : Prop :=
  (∃ e, r = (p, some e)) ∨ ∃ i p', r = (p', none) ∧ Placed chain p b i p'

theorem addSnapshotItem_cases (chain : ChainReader) (hp : Shape p) (howner : b.owner = none) :
    Answered chain p b (p.addSnapshotItem chain b) := by
  have hge := hp.lastSnapshot_ge
  have hle := hp.lastSnapshot_le
  have hlt := hp.current_lt
  unfold addSnapshotItem
  split
  · exact .inl ⟨_, rfl⟩
  · rename_i hfound
    -- every reference is in the batch or on the chain
    have hknown : ∀ r ∈ b.accounts, (p.all.get? r = none ∧ chain.accountExists r = true) ∨
        ∃ ol l, p.all.get? r = some ol ∧ p.ls ol.level = some l ∧ (l.isSnapshot = true ↔ ol.owner = none) := by
      intro r hr
      have hnot := List.find?_eq_none.mp hfound r hr
      cases hall : p.all.get? r with
      | none => exact .inl ⟨rfl, by simpa [hall] using hnot⟩
      | some ol =>
        obtain ⟨l, hl, hkind⟩ := hp.owners r ol hall
        exact .inr ⟨ol, l, rfl, hl, hkind⟩
    split
    · exact .inl ⟨_, rfl⟩
    · -- a new level on top takes the item
      have hnew : ∀ i : ℕ, (i : ℤ) = p.current + 1 → i < p.maxLevel →
          Answered chain p b (addToSnapshotLevel (p.setLevel i (.new true i none)) i (.new true i none) b) := by
        intro i hi hmax
        have hnone : p.ls i = none := by
          rw [← not_isSome_iff_eq_none, hp.levels]
          omega
        obtain ⟨l', hadd, hadds⟩ := new_add b true i none (by simp [howner])
        refine .inr ⟨i, addToSnapshotLevel_ok chain _ rfl hadd hadds ?_ (.inr ⟨hnone, by simp⟩) (by omega) hmax ?_ hp
          howner (by simp) (by omega)⟩
        · intro j hj
          exact update_of_ne hj _ _
        · intro r hr
          obtain hchain | ⟨ol, l, hol, hl, -⟩ := hknown r hr
          · exact .inl hchain
          · have := hp.level_le hl
            exact .inr ⟨ol, hol, .inl (by omega)⟩
      split
      · split
        · exact .inl ⟨_, rfl⟩
        · exact hnew 0 (by omega) (by omega)
      · split
        · exact .inl ⟨_, rfl⟩
        · rename_i tmp htmp
          have hcast : ((p.current.toNat : ℕ) : ℤ) = p.current := by omega
          split
          · rename_i hsnap
            -- the current level is the last snapshot level
            have hlast : p.lastSnapshot = p.current := by
              by_contra hne
              have := (hp.above _ tmp htmp (by omega)).2
              rw [hsnap] at this
              cases this
            have hopen : tmp.closed = false := by
              rw [hp.below _ tmp htmp (by omega), hsnap]
              rfl
            obtain ⟨l', hadd, hadds⟩ | ⟨hadd, -⟩ := add_cases (b := b) hopen (by simp [hsnap, howner])
            · refine .inr ⟨_, addToSnapshotLevel_ok chain p.ls hopen hadd hadds (fun _ _ => rfl) (.inl htmp) (by omega)
                (by omega) ?_ hp howner hsnap (by omega)⟩
              intro r hr
              obtain hchain | ⟨ol, l, hol, hl, hkind⟩ := hknown r hr
              · exact .inl hchain
              · have := hp.level_le hl
                by_cases heq : ol.level = p.current.toNat
                · rw [heq, htmp] at hl
                  obtain rfl := some.inj hl
                  exact .inr ⟨ol, hol, .inr ⟨heq, by rw [howner, hkind.mp hsnap]⟩⟩
                · exact .inr ⟨ol, hol, .inl (by omega)⟩
            · -- nothing is left to close, so the failed call changes nothing
              left
              obtain ⟨ls', hclose, hget⟩ := closeLevels_ok p.lastSnapshot p.current.toNat p.ls
                (by intro j hj hji; omega)
              have hsame : ls' = p.ls := by
                funext j
                rw [hget, if_neg]
                rintro ⟨h1, h2⟩
                omega
              refine ⟨.prevAndHash, ?_⟩
              unfold addToSnapshotLevel
              rw [hadd]
              unfold endSnapshot
              rw [hclose, hsame]
              rw [if_neg (by omega), hcast]
              exact congrArg (fun n => (({ p with lastSnapshot := n } : Batch), some BatchError.prevAndHash)) hlast.symm
          · split
            · exact .inl ⟨_, rfl⟩
            · exact hnew (p.current + 1).toNat (by omega) (by omega)

structure Referred (chain : ChainReader) (p : Batch) (owner : Address) (done : List Hash) (max : ℤ) : Prop where
  range : max = -1 ∨ p.lastSnapshot < max ∧ max ≤ p.current + 1
  refs : ∀ r ∈ done, (p.all.get? r = none ∧ chain.accountExists r = true) ∨
    ∃ ol, p.all.get? r = some ol ∧
      ((ol.level : ℤ) ≤ p.lastSnapshot ∨ (ol.level : ℤ) < max ∨ (ol.level : ℤ) = max ∧ ol.owner = some owner)

variable {owner : Address} {done : List Hash} {m m' : ℤ}

theorem Referred.mono (h : Referred chain p owner done m) (hm : m < m')
    (hrange : p.lastSnapshot < m' ∧ m' ≤ p.current + 1) : Referred chain p owner done m' := by
  refine ⟨.inr hrange, ?_⟩
  intro r hr
  obtain hchain | ⟨ol, hol, hlevel⟩ := h.refs r hr
  · exact .inl hchain
  · exact .inr ⟨ol, hol, by omega⟩

theorem Referred.snoc {r : Hash} (h : Referred chain p owner done m)
    (hr : (p.all.get? r = none ∧ chain.accountExists r = true) ∨ ∃ ol, p.all.get? r = some ol ∧
      ((ol.level : ℤ) ≤ p.lastSnapshot ∨ (ol.level : ℤ) < m ∨ (ol.level : ℤ) = m ∧ ol.owner = some owner)) :
    Referred chain p owner (done ++ [r]) m := by
  refine ⟨h.range, ?_⟩
  intro r' hr'
  obtain hr' | hr' := List.mem_append.mp hr'
  · exact h.refs r' hr'
  · obtain rfl := List.mem_singleton.mp hr'
    exact hr

theorem referLevel_ok (hp : Shape p) {r : Hash}
    (h : Referred chain p owner done m) (hstep : referLevel chain p b owner m r = .ok m') :
    Referred chain p owner (done ++ [r]) m' := by
  unfold referLevel at hstep
  split at hstep
  · rename_i hall
    split at hstep
    · cases hstep
      exact h.snoc (.inl ⟨hall, ‹_›⟩)
    · cases hstep
  · rename_i ol hall
    obtain ⟨l, hl, hkind⟩ := hp.owners r ol hall
    rw [hl] at hstep
    dsimp only at hstep
    have hcurrent := hp.level_le hl
    by_cases hclosed : l.closed = true
    · rw [if_pos hclosed] at hstep
      cases hstep
      -- a closed level is below the last snapshot level
      have hbelow : (ol.level : ℤ) ≤ p.lastSnapshot := by
        by_contra hlt
        rw [(hp.above _ l hl (by omega)).1] at hclosed
        cases hclosed
      exact h.snoc (.inr ⟨ol, hall, .inl hbelow⟩)
    · rw [if_neg hclosed] at hstep
      by_cases hm : m ≤ ol.level
      · rw [if_pos hm] at hstep
        split at hstep
        · cases hstep
        · rename_i o howner
          obtain ⟨-, hm'⟩ := guard_ok hstep
          replace hm' : (if o = owner then (ol.level : ℤ) else ol.level + 1) = m' := Except.ok.inj hm'
          -- an open account level is over the last snapshot level
          have hover : p.lastSnapshot < ol.level := by
            by_contra hle
            have hbelow := hp.below _ l hl (by omega)
            have hsnap : l.isSnapshot = false := by
              rw [← Bool.not_eq_true, hkind, howner]
              nofun
            rw [hsnap] at hbelow
            exact hclosed hbelow
          by_cases ho : o = owner
          · rw [if_pos ho] at hm'
            subst ho hm'
            obtain hlt | heq := Int.lt_or_eq_of_le hm
            · exact (h.mono hlt ⟨hover, by omega⟩).snoc (.inr ⟨ol, hall, .inr (.inr ⟨rfl, howner⟩)⟩)
            · subst heq
              exact h.snoc (.inr ⟨ol, hall, .inr (.inr ⟨rfl, howner⟩)⟩)
          · rw [if_neg ho] at hm'
            exact (h.mono (by omega) ⟨by omega, by omega⟩).snoc (.inr ⟨ol, hall, .inr (.inl (by omega))⟩)
      · rw [if_neg hm] at hstep
        obtain ⟨-, hm'⟩ := guard_ok hstep
        obtain rfl := Except.ok.inj hm'
        exact h.snoc (.inr ⟨ol, hall, .inr (.inl (by omega))⟩)

theorem addAccountItem_cases (chain : ChainReader) (hp : Shape p) (howner : b.owner = some owner)
    (sHash : Option Hash) : Answered chain p b (p.addAccountItem chain b owner sHash) := by
  have hge := hp.lastSnapshot_ge
  have hle := hp.lastSnapshot_le
  have hnil : b.owner ≠ none := by rw [howner]; nofun
  unfold addAccountItem
  split
  · exact .inl ⟨_, rfl⟩
  · rename_i referred hfold
    have href : Referred chain p owner b.accounts referred :=
      foldlM_inv (Referred chain p owner) (fun _ _ _ _ h hstep => referLevel_ok hp h hstep) hfold ⟨.inl rfl, nofun⟩
    have hmaxdef : ∃ max : ℤ, max = if referred < 0 then p.lastSnapshot + 1 else referred := ⟨_, rfl⟩
    obtain ⟨max, hmax⟩ := hmaxdef
    rw [← hmax]
    dsimp only
    have hrange : p.lastSnapshot < max ∧ max ≤ p.current + 1 := by
      have := href.range
      split at hmax <;> omega
    have hrefs : ∀ r ∈ b.accounts, ReferenceBefore chain p b.owner max.toNat r := by
      intro r hr
      obtain hchain | ⟨ol, hol, hlevel⟩ := href.refs r hr
      · exact .inl hchain
      · refine .inr ⟨ol, hol, ?_⟩
        obtain hlow | hlow | ⟨heq, ho⟩ := hlevel
        · exact .inl (by omega)
        · exact .inl (by split at hmax <;> omega)
        · exact .inr ⟨by split at hmax <;> omega, ho.trans howner.symm⟩
    split
    · exact .inl ⟨_, rfl⟩
    · split
      · -- a new level on top
        have hnone : p.ls max.toNat = none := by
          rw [← not_isSome_iff_eq_none, hp.levels]
          omega
        obtain ⟨l', hadd, hadds⟩ := new_add b false max.toNat sHash (by simp [hnil])
        exact .inr ⟨_, addToAccountLevel_ok chain (p.setLevel max.toNat (.new false max.toNat sHash)).ls rfl hadd hadds
          (fun j hj => update_of_ne hj _ _) (.inr ⟨hnone, by simp⟩) (by omega) (by omega) hrefs hnil (by simp)
          (by omega)⟩
      · rw [if_pos (by omega)]
        -- the current level is over the last snapshot level, so the item goes to a level that is there
        obtain ⟨top, htop⟩ := hp.exists_level (i := p.current.toNat) (by omega)
        obtain ⟨tmp, htmp⟩ := hp.exists_level (i := max.toNat) (by omega)
        have htopkind := (hp.above _ top htop (by omega)).2
        obtain ⟨hopen, hkind⟩ := hp.above _ tmp htmp (by omega)
        have hlevel : Answered chain p b (addToAccountLevel p max.toNat tmp b) := by
          obtain ⟨l', hadd, hadds⟩ | ⟨hadd, -⟩ := add_cases (b := b) hopen (by simp [hkind, hnil])
          · exact .inr ⟨_, addToAccountLevel_ok chain p.ls hopen hadd hadds (fun _ _ => rfl) (.inl htmp) (by omega)
              (by omega) hrefs hnil hkind (by omega)⟩
          · refine .inl ⟨.prevAndHash, ?_⟩
            unfold addToAccountLevel
            rw [hadd]
            rw [if_neg (by omega)]
        rw [htop]
        dsimp only
        rw [if_neg (by simp [htopkind])]
        split
        · rw [htmp]
          exact hlevel
        · have heq : p.current.toNat = max.toNat := by omega
          rw [heq, htmp] at htop
          obtain rfl := some.inj htop
          exact hlevel

theorem step_cases (chain : ChainReader) (hp : Shape p) (c : BatchCall) :
    (∃ e, p.step chain c = (p, some e)) ∨ ∃ i p', p.step chain c = (p', none) ∧ Placed chain p c.item i p' := by
  unfold step
  split
  · exact addSnapshotItem_cases chain hp ‹_›
  · exact addAccountItem_cases chain hp ‹_› c.sHash

end Batch

end GoVite.Pool
