import Mathlib.Data.List.Induction
import Mathlib.Data.Set.Insert

set_option autoImplicit false

/-! # Hash chains

Rows in the order of a sequence number, each with the hash of the sealed row before it. A row is
sealed when it has a hash. Which rows a chain may hold is said without an order of the rows, so a
chain is a set. -/

namespace HashChain

variable {R R' : Type}

/-- What a chain reads of its rows, and what the first one links to. -/
structure Link (R : Type) where
  id : R → String
  seq : R → Int
  prevHash : R → String
  hash : R → String
  genesis : String

/-- The sealed rows pass their check and have distinct seqs, the unsealed ones are all below them,
    and each sealed row links to its neighbour. -/
structure Ok (L : Link R) (check : R → Prop) (rows : Set R) : Prop where
  checked : ∀ r ∈ rows, L.hash r ≠ "" → check r
  unique : ∀ r ∈ rows, ∀ r' ∈ rows, L.hash r ≠ "" → L.hash r' ≠ "" → L.seq r = L.seq r' →
    L.id r = L.id r'
  unsealedBelow : ∀ u ∈ rows, ∀ r ∈ rows, L.hash u = "" → L.hash r ≠ "" → L.seq u < L.seq r
  linked : ∀ r ∈ rows, ∀ r' ∈ rows, L.hash r ≠ "" → L.hash r' ≠ "" → L.seq r < L.seq r' →
    (∀ w ∈ rows, ¬(L.seq r < L.seq w ∧ L.seq w < L.seq r')) → L.prevHash r' = L.hash r
  genesis : ∀ u ∈ rows, ∀ r ∈ rows, L.hash u = "" → L.hash r ≠ "" → L.seq u = L.seq r - 1 →
    L.prevHash r = L.genesis

/-! ## Rows that stand for others -/

/-- The chain cannot tell `r` from `r'`. -/
structure Same (L : Link R) (L' : Link R') (r : R) (r' : R') : Prop where
  id : L'.id r' = L.id r
  seq : L'.seq r' = L.seq r
  prevHash : L'.prevHash r' = L.prevHash r
  hash : L'.hash r' = L.hash r

/-- **A chain whose rows are replaced**, each by one the chain cannot tell from it, stays one. -/
theorem Ok.transport {L : Link R} {L' : Link R'} {check : R → Prop} {check' : R' → Prop}
    {rows : Set R} {rows' : Set R'} (hok : Ok L check rows) (hgenesis : L'.genesis = L.genesis)
    (hfrom : ∀ r' ∈ rows', ∃ r ∈ rows, Same L L' r r' ∧ (L.hash r ≠ "" → check r → check' r'))
    (hto : ∀ r ∈ rows, ∃ r' ∈ rows', L'.seq r' = L.seq r) : Ok L' check' rows' where
  checked := by
    intro r' hr' hs
    obtain ⟨r, hr, hsame, hcheck⟩ := hfrom r' hr'
    rw [hsame.hash] at hs
    exact hcheck hs (hok.checked r hr hs)
  unique := by
    intro a' ha' b' hb' hs hs' hseq
    obtain ⟨a, ha, hsame, -⟩ := hfrom a' ha'
    obtain ⟨b, hb, hsame', -⟩ := hfrom b' hb'
    rw [hsame.hash] at hs
    rw [hsame'.hash] at hs'
    rw [hsame.seq, hsame'.seq] at hseq
    rw [hsame.id, hsame'.id]
    exact hok.unique a ha b hb hs hs' hseq
  unsealedBelow := by
    intro u' hu' r' hr' hs hs'
    obtain ⟨u, hu, hsame, -⟩ := hfrom u' hu'
    obtain ⟨r, hr, hsame', -⟩ := hfrom r' hr'
    rw [hsame.hash] at hs
    rw [hsame'.hash] at hs'
    rw [hsame.seq, hsame'.seq]
    exact hok.unsealedBelow u hu r hr hs hs'
  linked := by
    intro a' ha' b' hb' hs hs' hlt hbetween
    obtain ⟨a, ha, hsame, -⟩ := hfrom a' ha'
    obtain ⟨b, hb, hsame', -⟩ := hfrom b' hb'
    rw [hsame.hash] at hs
    rw [hsame'.hash] at hs'
    rw [hsame.seq, hsame'.seq] at hlt
    rw [hsame'.prevHash, hsame.hash]
    refine hok.linked a ha b hb hs hs' hlt fun w hw hwlt => ?_
    obtain ⟨w', hw', hseq⟩ := hto w hw
    refine hbetween w' hw' ?_
    rw [hseq, hsame.seq, hsame'.seq]
    exact hwlt
  genesis := by
    intro u' hu' r' hr' hs hs' hseq
    obtain ⟨u, hu, hsame, -⟩ := hfrom u' hu'
    obtain ⟨r, hr, hsame', -⟩ := hfrom r' hr'
    rw [hsame.hash] at hs
    rw [hsame'.hash] at hs'
    rw [hsame.seq, hsame'.seq] at hseq
    rw [hsame'.prevHash, hgenesis]
    exact hok.genesis u hu r hr hs hs' hseq

/-! ## A row at the top -/

/-- A valid row above a chain that links to its last row, or to genesis where nothing is sealed. -/
theorem Ok.insert_top {L : Link R} {check : R → Prop} {rows : Set R} (hok : Ok L check rows) {x : R}
    (hs : L.hash x ≠ "") (hcheck : check x) (habove : ∀ r ∈ rows, L.seq r < L.seq x)
    (hlink : ∀ r ∈ rows, L.hash r ≠ "" → (∀ w ∈ rows, L.seq w ≤ L.seq r) →
      L.prevHash x = L.hash r)
    (hgenesis : (∀ r ∈ rows, L.hash r = "") → L.prevHash x = L.genesis) :
    Ok L check (insert x rows) := by
  refine ⟨?_, ?_, ?_, ?_, ?_⟩
  · rintro r (rfl | hr)
    · exact fun _ => hcheck
    · exact hok.checked r hr
  · rintro r (rfl | hr) r' (rfl | hr') hrs hrs' hseq
    · rfl
    · have := habove r' hr'
      omega
    · have := habove r hr
      omega
    · exact hok.unique r hr r' hr' hrs hrs' hseq
  · rintro u (rfl | hu) r (rfl | hr) hus hrs
    · exact absurd hus hrs
    · exact absurd hus hs
    · exact habove u hu
    · exact hok.unsealedBelow u hu r hr hus hrs
  · rintro r (rfl | hr) r' (rfl | hr') hrs hrs' hlt hbetween
    · exact absurd hlt (lt_irrefl _)
    · have := habove r' hr'
      omega
    · refine hlink r hr hrs (fun w hw => ?_)
      have := hbetween w (Set.mem_insert_of_mem _ hw)
      have := habove w hw
      omega
    · refine hok.linked r hr r' hr' hrs hrs' hlt (fun w hw => ?_)
      exact hbetween w (Set.mem_insert_of_mem _ hw)
  · rintro u (rfl | hu) r (rfl | hr) hus hrs hseq
    · omega
    · exact absurd hus hs
    · -- a sealed row would have to be between the two
      refine hgenesis (fun w hw => ?_)
      by_contra hws
      have := hok.unsealedBelow u hu w hw hus hws
      have := habove w hw
      omega
    · exact hok.genesis u hu r hr hus hrs hseq

/-! ## The tip -/

/-- One step of a search for the sealed row with the highest seq. -/
def higher (L : Link R) (best : Option R) (row : R) : Option R :=
  if L.hash row = "" then best
  else
    match best with
    | none => some row
    | some b => if L.seq b ≤ L.seq row then some row else some b

def tipOf (L : Link R) (rows : List R) : Option R := rows.foldl (higher L) none

/-- The hash that the next row links to. -/
def tipHash (L : Link R) (rows : List R) : String := ((tipOf L rows).map L.hash).getD L.genesis

/-- The sealed row with the highest seq, if any row is sealed. -/
def IsTip (L : Link R) (rows : List R) : Option R → Prop
  | none => ∀ r ∈ rows, L.hash r = ""
  | some t => (t ∈ rows ∧ L.hash t ≠ "") ∧ ∀ r ∈ rows, L.hash r ≠ "" → L.seq r ≤ L.seq t

theorem IsTip.step {L : Link R} {rows : List R} {best : Option R} (h : IsTip L rows best) (row : R) :
    IsTip L (rows ++ [row]) (higher L best row) := by
  unfold higher
  split_ifs with hs
  · cases best with
    | none =>
      intro r hr
      rcases List.mem_append.1 hr with hr | hr
      · exact h r hr
      · rw [List.mem_singleton.1 hr, hs]
    | some b =>
      refine ⟨⟨List.mem_append_left _ h.1.1, h.1.2⟩, fun r hr hrs => ?_⟩
      rcases List.mem_append.1 hr with hr | hr
      · exact h.2 r hr hrs
      · exact absurd hs (List.mem_singleton.1 hr ▸ hrs)
  · cases best with
    | none =>
      refine ⟨⟨by simp, hs⟩, fun r hr hrs => ?_⟩
      rcases List.mem_append.1 hr with hr | hr
      · exact absurd (h r hr) hrs
      · rw [List.mem_singleton.1 hr]
    | some b =>
      dsimp only
      split_ifs with hle
      · refine ⟨⟨by simp, hs⟩, fun r hr hrs => ?_⟩
        rcases List.mem_append.1 hr with hr | hr
        · exact (h.2 r hr hrs).trans hle
        · rw [List.mem_singleton.1 hr]
      · refine ⟨⟨List.mem_append_left _ h.1.1, h.1.2⟩, fun r hr hrs => ?_⟩
        rcases List.mem_append.1 hr with hr | hr
        · exact h.2 r hr hrs
        · rw [List.mem_singleton.1 hr]
          omega

theorem isTip_tipOf (L : Link R) (rows : List R) : IsTip L rows (tipOf L rows) := by
  induction rows using List.reverseRecOn with
  | nil => exact nofun
  | append_singleton rows row ih =>
    have hsnoc : tipOf L (rows ++ [row]) = higher L (tipOf L rows) row := by simp [tipOf]
    rw [hsnoc]
    exact ih.step row

/-- **A chain grows at its tip**: a valid row above all others that links to the tip. -/
theorem Ok.grow {L : Link R} {check : R → Prop} {rows : List R} (hok : Ok L check {r | r ∈ rows})
    (hid : ∀ r ∈ rows, ∀ r' ∈ rows, L.id r = L.id r' → r = r') {x : R} (hs : L.hash x ≠ "")
    (hcheck : check x) (habove : ∀ r ∈ rows, L.seq r < L.seq x)
    (hprev : L.prevHash x = tipHash L rows) : Ok L check (insert x {r | r ∈ rows}) := by
  have htip := isTip_tipOf L rows
  refine hok.insert_top hs hcheck habove (fun r hr hrs htop => ?_) fun hnone => ?_
  · rw [hprev, tipHash]
    cases hfound : tipOf L rows with
    | none =>
      rw [hfound] at htip
      exact absurd (htip r hr) hrs
    | some tip =>
      rw [hfound] at htip
      obtain ⟨⟨htmem, hts⟩, hmax⟩ := htip
      have hseq : L.seq tip = L.seq r := le_antisymm (htop tip htmem) (hmax r hr hrs)
      rw [hid tip htmem r hr (hok.unique tip htmem r hr hts hrs hseq)]
      rfl
  · rw [hprev, tipHash]
    cases hfound : tipOf L rows with
    | none => rfl
    | some tip =>
      rw [hfound] at htip
      exact absurd (hnone tip htip.1.1) htip.1.2

/-- A new row concerns the rows of its own node only. -/
theorem forall_nodes_concat {N : Type} {P : Set R → Prop} {node : R → N} {rows : List R} {x : R}
    (h : ∀ n, P {r | r ∈ rows ∧ node r = n})
    (hx : P (insert x {r | r ∈ rows ∧ node r = node x})) (n : N) :
    P {r | r ∈ rows ++ [x] ∧ node r = n} := by
  by_cases hnode : node x = n
  · subst hnode
    convert hx using 1
    ext r
    simp only [Set.mem_ofPred_eq, Set.mem_insert_iff, List.mem_append, List.mem_singleton]
    constructor
    · rintro ⟨hr | rfl, hrn⟩
      · exact Or.inr ⟨hr, hrn⟩
      · exact Or.inl rfl
    · rintro (rfl | ⟨hr, hrn⟩)
      · exact ⟨Or.inr rfl, rfl⟩
      · exact ⟨Or.inl hr, hrn⟩
  · convert h n using 1
    ext r
    simp only [Set.mem_ofPred_eq, List.mem_append, List.mem_singleton]
    constructor
    · rintro ⟨hr | rfl, hrn⟩
      · exact ⟨hr, hrn⟩
      · exact absurd hrn hnode
    · rintro ⟨hr, hrn⟩
      exact ⟨Or.inl hr, hrn⟩

end HashChain
