import CentNode.Staking.StakeModifier

/-!
# Agreement of the stake modifiers

Two nodes add the same chain to their block indexes, each in an order of its
own and among other blocks.  The modifiers are a function of the headers and
of one address of the process.
-/

namespace CentNode

open List StdMap Option

/-- The values of an entry that come from the block header. -/
def StakeIndex.header (pindex : StakeIndex) : Uint256 × Nat × Bool :=
  (pindex.hash, pindex.nTime, pindex.fProofOfStake)

/-- The values of an entry that come from `ComputeNextStakeModifier`. -/
def StakeIndex.modifier (pindex : StakeIndex) : BitVec 64 × Bool :=
  (pindex.nStakeModifier, pindex.fGeneratedStakeModifier)

/-- The block index restricted to one chain. -/
def findIn (chain : List StakeIndex) (hash : Uint256) : Option StakeIndex :=
  chain.find? fun pindex => pindex.hash = hash

section Computed

variable (params : CChainParams) (hashOf : Uint256 → BitVec 64 → Uint256)

/-! ## Only the candidates are looked up -/

variable {first second : Uint256 → Option StakeIndex} {items : List (Nat × Uint256)}

section

variable {selected : List Uint256} {start stop : Int} (literal : BitVec 64)
  {pindexPrev : List StakeIndex} {nStakeModifierPrev : BitVec 64}

theorem selectLoop_congr
    (same : ∀ item ∈ items, first item.2 = second item.2) (version : Option Bool)
    (best : Option (Uint256 × StakeIndex)) :
    selectLoop params hashOf first selected stop nStakeModifierPrev items version best =
      selectLoop params hashOf second selected stop nStakeModifierPrev items version best := by
  induction items generalizing version best with
  | nil => rfl
  | cons item rest ih =>
    have sameRest : ∀ other ∈ rest, first other.2 = second other.2 := fun other member =>
      same other (mem_cons_of_mem item member)
    rw [selectLoop, selectLoop, same item mem_cons_self]
    cases second item.2 with
    | none => rfl
    | some pindex => simp only [ih sameRest]

theorem selectRounds_congr
    (same : ∀ item ∈ items, first item.2 = second item.2) (rounds : List Nat) (stop : Int)
    (selected : List Uint256) (nStakeModifierNew : BitVec 64) :
    selectRounds params hashOf first items nStakeModifierPrev rounds stop selected
        nStakeModifierNew =
      selectRounds params hashOf second items nStakeModifierPrev rounds stop selected
        nStakeModifierNew := by
  induction rounds generalizing stop selected nStakeModifierNew with
  | nil => rfl
  | cons nRound rest ih =>
    rw [selectRounds, selectRounds, selectBlockFromCandidates, selectBlockFromCandidates,
      selectLoop_congr params hashOf same]
    simp only [ih]

theorem mem_of_mem_sortedCandidates
    {item : Nat × Uint256} (member : item ∈ sortedCandidates start pindexPrev) :
    ∃ pindex ∈ pindexPrev, pindex.hash = item.2 := by
  rw [sortedCandidates, mem_insertionSort, mem_reverse, List.mem_map] at member
  obtain ⟨pindex, taken, rfl⟩ := member
  exact ⟨pindex, takeWhile_sublist _ |>.mem taken, rfl⟩

theorem computeNextStakeModifier_congr
    (same : ∀ pindex ∈ pindexPrev, first pindex.hash = second pindex.hash) :
    computeNextStakeModifier params hashOf literal first pindexPrev =
      computeNextStakeModifier params hashOf literal second pindexPrev := by
  cases pindexPrev with
  | nil => rfl
  | cons prev below =>
    have sameItems : ∀ start, ∀ item ∈ sortedCandidates start (prev :: below),
        first item.2 = second item.2 := by
      intro start item member
      obtain ⟨pindex, inside, hash_eq⟩ := mem_of_mem_sortedCandidates member
      rw [← hash_eq]
      exact same pindex inside
    simp only [computeNextStakeModifier, selectRounds_congr params hashOf (sameItems _)]

end

/-! ## The modifiers of a chain -/

/-- Height and modifier of each entry are those that its ancestors lead to. -/
def Computed (literal : BitVec 64) : List StakeIndex → Prop
  | [] => True
  | [genesis] => genesis.nHeight = 0 ∧ genesis.modifier = (0, false)
  | pindex :: below =>
    let next := computeNextStakeModifier params hashOf literal (findIn below) below
    pindex.nHeight = below.length ∧
      pindex.modifier = (next.nStakeModifier, next.fGeneratedStakeModifier) ∧ Computed literal below

/-- Every entry of the block index is computed from its ancestors, and these
are indexed as well. -/
structure Consistent (literal : BitVec 64) (mapBlockIndex : BlockMap) : Prop where
  computed : ∀ hash linked, mapBlockIndex.lookup hash = some linked →
    linked.entry.hash = hash ∧ Computed params hashOf literal linked.chain
  linked : ∀ hash linked, mapBlockIndex.lookup hash = some linked →
    ∀ pprev below, linked.ancestors = pprev :: below →
      mapBlockIndex.lookup pprev.hash = some ⟨pprev, below⟩

variable {params hashOf} {literal : BitVec 64} {mapBlockIndex : BlockMap}

theorem Computed.nHeight_eq {pindex : StakeIndex} {below : List StakeIndex}
    (computed : Computed params hashOf literal (pindex :: below)) :
    pindex.nHeight = below.length := by
  cases below with
  | nil => exact computed.1
  | cons pprev rest => exact computed.1

theorem Computed.below {pindex : StakeIndex} {below : List StakeIndex}
    (computed : Computed params hashOf literal (pindex :: below)) :
    Computed params hashOf literal below := by
  cases below with
  | nil => trivial
  | cons pprev rest => exact computed.2.2

namespace Consistent

variable {linked : LinkedIndex} {hash : Uint256}

section

variable (consistent : Consistent params hashOf literal mapBlockIndex)
  (found : mapBlockIndex.lookup hash = some linked) {pindex : StakeIndex}
  (member : pindex ∈ linked.chain)

include consistent found member

theorem find_of_mem : mapBlockIndex.find pindex.hash = some pindex := by
  obtain ⟨entry, ancestors⟩ := linked
  induction ancestors generalizing entry hash with
  | nil =>
    cases mem_singleton.mp member
    rw [BlockMap.find, (consistent.computed hash _ found).1, found]
    rfl
  | cons pprev below ih =>
    rcases mem_cons.mp member with rfl | inside
    · rw [BlockMap.find, (consistent.computed hash _ found).1, found]
      rfl
    · exact ih pprev (consistent.linked hash _ found pprev below rfl) inside

theorem find_eq_findIn :
    mapBlockIndex.find pindex.hash = findIn linked.chain pindex.hash := by
  have indexed := consistent.find_of_mem found member
  cases inChain : findIn linked.chain pindex.hash with
  | none =>
    have differs := find?_eq_none.mp inChain pindex member
    simp at differs
  | some other =>
    have same : other.hash = pindex.hash := by
      simpa using find?_some inChain
    have otherIndexed := consistent.find_of_mem found (mem_of_find?_eq_some inChain)
    rw [← same, otherIndexed]

end

theorem empty : Consistent params hashOf literal ∅ where
  computed := fun hash linked found => by
    rw [AList.lookup_empty] at found
    cases found
  linked := fun hash linked found => by
    rw [AList.lookup_empty] at found
    cases found

theorem insert (consistent : Consistent params hashOf literal mapBlockIndex)
    (hash_eq : linked.entry.hash = hash) (new : mapBlockIndex.lookup hash = none)
    (computed : Computed params hashOf literal linked.chain)
    (parent : ∀ pprev below, linked.ancestors = pprev :: below →
      mapBlockIndex.lookup pprev.hash = some ⟨pprev, below⟩) :
    Consistent params hashOf literal (mapBlockIndex.insert hash linked) := by
  have keeps : ∀ other old, mapBlockIndex.lookup other = some old →
      (mapBlockIndex.insert hash linked).lookup other = some old := by
    intro other old found
    rw [lookup_insert_ite, if_neg, found]
    rintro rfl
    rw [new] at found
    cases found
  constructor
  · intro key other found
    rw [lookup_insert_ite] at found
    split at found
    case isTrue same =>
      cases found
      exact ⟨hash_eq.trans same.symm, computed⟩
    case isFalse => exact consistent.computed key other found
  · intro key other found pprev below ancestors_eq
    rw [lookup_insert_ite] at found
    split at found
    case isTrue same =>
      cases found
      exact keeps _ _ (parent pprev below ancestors_eq)
    case isFalse => exact keeps _ _ (consistent.linked key other found pprev below ancestors_eq)

theorem addToBlockIndex (consistent : Consistent params hashOf literal mapBlockIndex)
    (block : CBlock) :
    Consistent params hashOf literal
      (CentNode.addToBlockIndex params hashOf literal mapBlockIndex block) := by
  rw [CentNode.addToBlockIndex]
  cases known : mapBlockIndex.lookup block.hash with
  | some old =>
    rw [isSome_some, if_pos rfl]
    exact consistent
  | none =>
    rw [isSome_none, if_neg Bool.false_ne_true]
    cases parent : mapBlockIndex.lookup block.hashPrevBlock with
    | none =>
      refine consistent.insert rfl known ⟨rfl, rfl⟩ ?_
      intro pprev below impossible
      cases impossible
    | some pprev =>
      obtain ⟨hash_eq, computed⟩ := consistent.computed _ _ parent
      have same := computeNextStakeModifier_congr params hashOf literal
        fun pindex member => consistent.find_eq_findIn parent member
      have height_eq : pprev.entry.nHeight + 1 = pprev.chain.length :=
        congrArg (· + 1) computed.nHeight_eq
      simp only [same, height_eq]
      refine consistent.insert rfl known ⟨rfl, rfl, computed⟩ ?_
      intro parentEntry below ancestors_eq
      cases ancestors_eq
      rw [hash_eq, parent]

theorem blockIndexOf (blocks : List CBlock) :
    Consistent params hashOf literal (CentNode.blockIndexOf params hashOf literal blocks) := by
  have run : ∀ start : BlockMap, Consistent params hashOf literal start →
      Consistent params hashOf literal
        (blocks.foldl (CentNode.addToBlockIndex params hashOf literal) start) := by
    induction blocks with
    | nil => exact fun start holds => holds
    | cons block rest ih => exact fun start holds => ih _ (holds.addToBlockIndex block)
  exact run ∅ empty

end Consistent

/-! ## Two nodes -/

theorem StakeIndex.eq_of_parts {first second : StakeIndex} (header_eq : first.header = second.header)
    (height_eq : first.nHeight = second.nHeight) (modifier_eq : first.modifier = second.modifier) :
    first = second := by
  cases first
  cases second
  simp only [StakeIndex.header, StakeIndex.modifier, Prod.mk.injEq] at header_eq modifier_eq
  simp only [StakeIndex.mk.injEq]
  exact ⟨header_eq.1, header_eq.2.1, header_eq.2.2, height_eq, modifier_eq.1, modifier_eq.2⟩

namespace Computed

theorem eq_of_headers {first second : List StakeIndex}
    (firstComputed : Computed params hashOf literal first)
    (secondComputed : Computed params hashOf literal second)
    (same : first.map StakeIndex.header = second.map StakeIndex.header) : first = second := by
  induction first generalizing second with
  | nil => exact (map_eq_nil_iff.mp same.symm).symm
  | cons pindex below ih =>
    cases second with
    | nil => cases same
    | cons other rest =>
      obtain ⟨header_eq, headers_eq⟩ := List.cons.inj same
      have below_eq : below = rest := ih firstComputed.below secondComputed.below headers_eq
      subst below_eq
      have height_eq := firstComputed.nHeight_eq.trans secondComputed.nHeight_eq.symm
      refine congrArg (· :: below) (StakeIndex.eq_of_parts header_eq height_eq ?_)
      cases below with
      | nil => exact firstComputed.2.trans secondComputed.2.symm
      | cons pprev rest => exact firstComputed.2.1.trans secondComputed.2.1.symm

theorem genesis {other : BitVec 64} {pindex : StakeIndex}
    (computed : Computed params hashOf literal [pindex]) : Computed params hashOf other [pindex] :=
  computed

theorem first_block {chain : List StakeIndex} (computed : Computed params hashOf literal chain)
    (long : 2 ≤ chain.length) :
    ∃ pindex, chain[chain.length - 2]? = some pindex ∧ pindex.nStakeModifier = literal := by
  induction chain with
  | nil => simp at long
  | cons pindex below ih =>
    match below, computed, ih with
    | [], _, _ => simp at long
    | [genesis], computed, _ =>
      have zero : genesis.nHeight = 0 := computed.2.2.1
      refine ⟨pindex, rfl, ?_⟩
      have modifier_eq := congrArg Prod.fst computed.2.1
      rw [computeNextStakeModifier, if_pos zero] at modifier_eq
      exact modifier_eq
    | pprev :: second :: rest, computed, ih =>
      obtain ⟨first, found, modifier_eq⟩ := ih computed.below (by simp)
      exact ⟨first, found, modifier_eq⟩

end Computed

end Computed

/-- The modifiers of all blocks of the chain agree, and so do the kernel
modifiers for all its blocks as sources. -/
def ModifiersAgree (firstMap secondMap : BlockMap) (first second : LinkedIndex) : Prop :=
  first.chain.map StakeIndex.modifier = second.chain.map StakeIndex.modifier ∧
    ∀ pindex ∈ first.chain,
      getKernelStakeModifier firstMap first.chain.reverse pindex.hash =
        getKernelStakeModifier secondMap second.chain.reverse pindex.hash

/-- Two nodes that hold the same chain agree on its modifiers exactly if the
string literal has the same address in both processes, or the chain is the
genesis block alone. -/
theorem modifiersAgree_iff {params : CChainParams} {hashOf : Uint256 → BitVec 64 → Uint256}
    {firstLiteral secondLiteral : BitVec 64} {firstBlocks secondBlocks : List CBlock}
    {hash : Uint256} {first second : LinkedIndex}
    (firstHolds : (blockIndexOf params hashOf firstLiteral firstBlocks).lookup hash = some first)
    (secondHolds : (blockIndexOf params hashOf secondLiteral secondBlocks).lookup hash =
      some second)
    (same : first.chain.map StakeIndex.header = second.chain.map StakeIndex.header) :
    ModifiersAgree (blockIndexOf params hashOf firstLiteral firstBlocks)
        (blockIndexOf params hashOf secondLiteral secondBlocks) first second ↔
      first.ancestors = [] ∨ firstLiteral = secondLiteral := by
  have firstIndex : Consistent params hashOf firstLiteral _ := Consistent.blockIndexOf firstBlocks
  have secondIndex : Consistent params hashOf secondLiteral _ :=
    Consistent.blockIndexOf secondBlocks
  have firstComputed := (firstIndex.computed _ _ firstHolds).2
  have secondComputed := (secondIndex.computed _ _ secondHolds).2
  have lengths : first.chain.length = second.chain.length := by
    simpa using congrArg List.length same
  constructor
  · rintro ⟨modifiers, _⟩
    cases ancestors_eq : first.ancestors with
    | nil => exact Or.inl rfl
    | cons pprev below =>
      have long : 2 ≤ first.chain.length := by simp [LinkedIndex.chain, ancestors_eq]
      obtain ⟨one, firstAt, one_eq⟩ := firstComputed.first_block long
      obtain ⟨two, secondAt, two_eq⟩ := secondComputed.first_block (lengths ▸ long)
      rw [← lengths] at secondAt
      have agree := congrArg (·[first.chain.length - 2]?) modifiers
      simp only [getElem?_map, firstAt, secondAt, map_some] at agree
      have modifier_eq : one.nStakeModifier = two.nStakeModifier :=
        congrArg Prod.fst (Option.some.inj agree)
      exact Or.inr (one_eq.symm.trans (modifier_eq.trans two_eq))
  · intro condition
    have chain_eq : first.chain = second.chain := by
      rcases condition with alone | rfl
      · have single : second.ancestors = [] := by
          have zero : second.ancestors.length = 0 := by
            simpa [LinkedIndex.chain, alone] using lengths.symm
          exact length_eq_zero_iff.mp zero
        simp only [LinkedIndex.chain, alone, single] at firstComputed secondComputed same ⊢
        exact firstComputed.eq_of_headers secondComputed.genesis same
      · exact firstComputed.eq_of_headers secondComputed same
    refine ⟨by rw [chain_eq], fun pindex member => ?_⟩
    have inSecond : pindex ∈ second.chain := chain_eq ▸ member
    rw [getKernelStakeModifier, getKernelStakeModifier, firstIndex.find_of_mem firstHolds member,
      secondIndex.find_of_mem secondHolds inSecond, chain_eq]

namespace TwoNodes

def header (hash hashPrevBlock : Uint256) (nTime : Nat) : CBlock :=
  { hash := hash, hashPrevBlock := hashPrevBlock, nTime := nTime, vtx := [] }

def chain : List CBlock := [header 1 0 0, header 2 1 60, header 3 2 130, header 4 3 200]

/-- A stand-in for the hash. -/
def mix (hashProof : Uint256) (nStakeModifier : BitVec 64) : Uint256 :=
  hashProof * 1000003 + nStakeModifier.setWidth 256

/-- The index of a node whose literal lies at the given address. -/
def index (literal : BitVec 64) (blocks : List CBlock) : BlockMap :=
  blockIndexOf mainParams mix literal blocks

/-- What a node holds under a hash. -/
def held (literal : BitVec 64) (blocks : List CBlock) (hash : Uint256) : LinkedIndex :=
  ((index literal blocks).lookup hash).getD ⟨StakeIndex.ofBlock (header 0 0 0), []⟩

end TwoNodes

open TwoNodes

/-- One node has seen a fork as well; the literal lies at the same address. -/
theorem modifiersAgree_same_address :
    ModifiersAgree (TwoNodes.index 4096 TwoNodes.chain)
      (TwoNodes.index 4096 (TwoNodes.chain ++ [TwoNodes.header 5 2 150]))
      (TwoNodes.held 4096 TwoNodes.chain 4)
      (TwoNodes.held 4096 (TwoNodes.chain ++ [TwoNodes.header 5 2 150]) 4) := by
  have first : (index 4096 chain).lookup 4 =
      some (held 4096 chain 4) := by
    decide +kernel
  have second : (index 4096 (chain ++ [header 5 2 150])).lookup 4 =
      some (held 4096 (chain ++ [header 5 2 150]) 4) := by
    decide +kernel
  exact (modifiersAgree_iff first second (by decide +kernel)).mpr (Or.inr rfl)

/-- Two nodes with the literal at different addresses hold the same chain with
different modifiers. -/
theorem modifiers_differ :
    (TwoNodes.index 4096 TwoNodes.chain).lookup 4 = some (TwoNodes.held 4096 TwoNodes.chain 4) ∧
      (TwoNodes.index 8192 TwoNodes.chain).lookup 4 = some (TwoNodes.held 8192 TwoNodes.chain 4) ∧
        (TwoNodes.held 4096 TwoNodes.chain 4).chain.map StakeIndex.header =
            (TwoNodes.held 8192 TwoNodes.chain 4).chain.map StakeIndex.header ∧
          ¬ ModifiersAgree (TwoNodes.index 4096 TwoNodes.chain)
            (TwoNodes.index 8192 TwoNodes.chain) (TwoNodes.held 4096 TwoNodes.chain 4)
            (TwoNodes.held 8192 TwoNodes.chain 4) := by
  refine ⟨by decide +kernel, by decide +kernel, by decide +kernel, fun agree => ?_⟩
  have differ : ¬ (held 4096 chain 4).chain.map StakeIndex.modifier =
      (held 8192 chain 4).chain.map StakeIndex.modifier := by
    decide +kernel
  exact differ agree.1

end CentNode
