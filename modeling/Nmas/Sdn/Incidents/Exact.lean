import Nmas.Sdn.Incidents.Group

/-!
Owns: that grouping loses and duplicates no detection and does not depend on the order the
detections came in (`group_exact`).

Each detection has one place, the key of the incident it ends in, which the set of the
detections decides. An incident's members are those whose place its key is.
-/

namespace Nmas.Sdn.Incidents

open Nmas.Text Nmas.Log List

variable [Readers] {values : Str → Int} {ds : List Detection} {d : Detection} {inc : Incident}
  {rule other source target : Str}

/-! ### Keys -/

omit [Readers] in
theorem isGrouped_cases (grouped : isGrouped rule) :
    rule = "scan".ascii ∨ rule = "flood".ascii ∨ rule = "high_rate".ascii := by
  simp only [isGrouped, groupedRules, any_cons, any_nil, Bool.or_false,
    Bool.or_eq_true, decide_eq_true_eq] at grouped
  rcases grouped with isScan | isFlood | isRate
  · exact .inl isScan.symm
  · exact .inr (.inl isFlood.symm)
  · exact .inr (.inr isRate.symm)

omit [Readers] in
theorem isSingle_single : isSingle (ruleKey single source) := rfl

omit [Readers] in
theorem not_single (grouped : isGrouped rule) : isSingle (ruleKey rule source) = false := by
  rcases isGrouped_cases grouped with isRule | isRule | isRule <;> rw [isRule] <;> rfl

omit [Readers] in
theorem sourceOf_ruleKey (grouped : isGrouped rule) : sourceOf (ruleKey rule source) = source := by
  rcases isGrouped_cases grouped with isRule | isRule | isRule <;> rw [isRule] <;> rfl

omit [Readers] in
theorem ruleKey_inj (grouped : isGrouped rule) (otherGrouped : isGrouped other)
    (same : ruleKey rule source = ruleKey other target) : rule = other ∧ source = target := by
  have isSource : source = target := by
    have isOwn : sourceOf (ruleKey rule source) = source := sourceOf_ruleKey grouped
    rw [same, sourceOf_ruleKey otherGrouped] at isOwn
    exact isOwn.symm
  refine ⟨?_, isSource⟩
  rw [isSource] at same
  exact append_cancel_right same

omit [Readers] in
theorem single_inj {key found : Str} (same : ruleKey single key = ruleKey single found) :
    key = found := by
  have tails := append_cancel_left same
  exact (List.cons.inj tails).2

def Sourced (d : Detection) : Prop := isGrouped d.rule = true ∧ canonSource d.source ≠ []

theorem groupKey_sourced (sourced : Sourced d) :
    groupKey d = ruleKey d.rule (canonSource d.source) := by
  simp [groupKey, sourced.1, sourced.2]

theorem groupKey_single (notSourced : ¬ Sourced d) : groupKey d = ruleKey single d.key := by
  unfold groupKey
  rw [if_neg]
  intro both
  rw [Bool.and_eq_true, decide_eq_true_eq] at both
  exact notSourced both

theorem isSingle_iff : isSingle (groupKey d) ↔ ¬ Sourced d := by
  constructor
  · intro isSingle_ sourced
    rw [groupKey_sourced sourced, not_single sourced.1] at isSingle_
    cases isSingle_
  · intro notSourced
    rw [groupKey_single notSourced, isSingle_single]

/-! ### The buckets -/

omit [Readers] in
theorem foldl_addMember {later : List Detection}
    (distinct : ((inc.members ++ later).map Detection.key).Nodup) :
    later.foldl addMember inc = { inc with members := inc.members ++ later } := by
  induction later generalizing inc with
  | nil => simp
  | cons d later ih =>
    have isNew : inc.members.all (fun m => m.key ≠ d.key) = true := by
      rw [all_eq_true]
      intro m member
      rw [map_append, map_cons] at distinct
      have apart := (nodup_append.mp distinct).2.2
      exact decide_eq_true (apart m.key (mem_map_of_mem member) d.key (.head _))
    have isAdded : addMember inc d = { inc with members := inc.members ++ [d] } := by
      unfold addMember
      rw [if_pos isNew]
    rw [foldl_cons, isAdded, ih]
    · simp
    · simpa using distinct

structure Opens (values : Str → Int) (d : Detection) (inc : Incident) : Prop where
  key : inc.key = groupKey d
  rule : inc.rule = d.rule
  source : inc.source = if isSingle (groupKey d) then [] else canonSource d.source
  window : inc.window = window d.rule values

theorem members_made {items : List Detection} (distinct : (items.map Detection.key).Nodup)
    (isMade : some inc = made (opened values) addMember items) :
    inc.members = items ∧ ∃ d ∈ items, Opens values d inc := by
  cases items with
  | nil => cases isMade
  | cons d later =>
    have isOpened : opened values d = ⟨groupKey d, d.rule,
        if isSingle (groupKey d) then [] else canonSource d.source,
        window d.rule values, [d]⟩ := rfl
    have isInc := Option.some.inj isMade
    rw [isOpened, foldl_addMember (by simpa using distinct)] at isInc
    rw [isInc]
    exact ⟨rfl, d, .head _, rfl, rfl, rfl, rfl⟩

theorem gathered_buckets : Gathered Incident.key groupKey (opened values) addMember ds
    (buckets values ds) := by
  unfold buckets
  refine gathered_foldl ?_ ?_ ds
  · exact fun item => rfl
  · intro group item
    unfold addMember
    split <;> rfl

theorem every_bucket (values : Str → Int) (isIn : d ∈ ds) :
    ∃ inc ∈ buckets values ds, inc.key = groupKey d := gathered_buckets.every d isIn

theorem bucket_members (distinct : (ds.map Detection.key).Nodup)
    (isBucket : inc ∈ buckets values ds) :
    inc.members = ds.filter (fun d => groupKey d = inc.key) ∧ ∃ d ∈ ds, Opens values d inc := by
  have made := gathered_buckets.made inc isBucket
  have sub : (ds.filter (fun d => groupKey d = inc.key)).Sublist ds := filter_sublist
  obtain ⟨isMembers, d, member, opens⟩ := members_made (distinct.sublist (sub.map _)) made
  exact ⟨isMembers, d, sub.subset member, opens⟩

theorem single_members (distinct : (ds.map Detection.key).Nodup)
    (isBucket : inc ∈ buckets values ds) (isSingle_ : isSingle inc.key) :
    ∃ d ∈ ds, inc.members = [d] ∧ groupKey d = inc.key := by
  obtain ⟨isMembers, d, isIn, opens⟩ := bucket_members distinct isBucket
  refine ⟨d, isIn, ?_, opens.key.symm⟩
  have alone : ∀ other ∈ inc.members, other = d := by
    intro other member
    rw [isMembers, mem_filter, decide_eq_true_eq] at member
    obtain ⟨otherIn, sameKey⟩ := member
    rw [opens.key] at sameKey isSingle_
    have notSourced := isSingle_iff.mp isSingle_
    have otherNot : ¬ Sourced other := isSingle_iff.mp (by rw [sameKey]; exact isSingle_)
    rw [groupKey_single notSourced, groupKey_single otherNot] at sameKey
    exact inj_on_of_nodup_map distinct otherIn isIn (single_inj sameKey)
  have isMember : d ∈ inc.members := by
    rw [isMembers, mem_filter, decide_eq_true_eq]
    exact ⟨isIn, opens.key.symm⟩
  have nodup : inc.members.Nodup := by
    rw [isMembers]
    exact distinct.of_map.filter _
  cases isList : inc.members with
  | nil => simp [isList] at isMember
  | cons first rest =>
    rw [isList] at alone nodup
    have isFirst := alone first (.head _)
    cases rest with
    | nil => rw [isFirst]
    | cons second rest =>
      have isSecond := alone second (by simp)
      rw [isFirst, isSecond] at nodup
      simp at nodup

/-! ### The joins -/

variable {grouped out incs : List Incident} {key : Str}

def joining (grouped : List Incident) (inc : Incident) : Option (Detection × Str) :=
  if isSingle inc.key then
    match inc.members with
    | [d] => (linkIncident d grouped).map (fun joins => (d, joins.key))
    | _ => none
  else none

def given (grouped incs : List Incident) (key : Str) : List Detection :=
  incs.filterMap (fun inc => (joining grouped inc).bind (fun pair =>
    if pair.2 = key then some (viaLink pair.1 key) else none))

def stays (grouped incs : List Incident) (key : Str) : Bool :=
  incs.all (fun inc => (joining grouped inc).isNone || decide (inc.key ≠ key))

def extended (grouped incs : List Incident) (inc : Incident) : Incident :=
  { inc with members := inc.members ++ given grouped incs inc.key }

/-- The incident a single joins, with the single in it. -/
def taking (pair : Detection × Str) (other : Incident) : Incident :=
  if other.key = pair.2 then { other with members := other.members ++ [viaLink pair.1 pair.2] }
  else other

theorem join_none (none : joining grouped inc = none) : join grouped out inc = out := by
  obtain ⟨key, rule, source, window, members⟩ := inc
  cases isSingle_ : isSingle key with
  | false => simp [join, isSingle_]
  | true =>
    match members, none with
    | [], _ => simp [join, isSingle_]
    | [d], none =>
      have isNone : linkIncident d grouped = Option.none := by
        simpa [joining, isSingle_] using none
      simp [join, isSingle_, isNone]
    | _ :: _ :: _, _ => simp [join, isSingle_]

theorem join_some {pair : Detection × Str} (joins : joining grouped inc = some pair) :
    join grouped out inc = (out.map (taking pair)).filter (fun other => other.key ≠ inc.key) := by
  obtain ⟨key, rule, source, window, members⟩ := inc
  cases isSingle_ : isSingle key with
  | false => simp [joining, isSingle_] at joins
  | true =>
    match members, joins with
    | [], joins => simp [joining] at joins
    | [d], joins =>
      have isPair : (linkIncident d grouped).map (fun other => (d, other.key)) = some pair := by
        simpa [joining, isSingle_] using joins
      obtain ⟨found, isFound, rfl⟩ := Option.map_eq_some_iff.mp isPair
      simp only [join, isSingle_, if_true, isFound]
      rfl
    | _ :: _ :: _, joins => simp [joining] at joins

theorem taking_key {pair : Detection × Str} {other : Incident} :
    (taking pair other).key = other.key := by
  unfold taking
  split <;> rfl

theorem foldl_join : incs.foldl (join grouped) out =
    (out.filter (fun inc => stays grouped incs inc.key)).map (extended grouped incs) := by
  induction incs generalizing out with
  | nil =>
    have all : ∀ inc ∈ out, stays grouped [] inc.key := fun _ _ => rfl
    rw [filter_eq_self.mpr all]
    have same : extended grouped [] = id := by
      funext inc
      simp [extended, given]
    rw [same, map_id]
    rfl
  | cons inc incs ih =>
    rw [foldl_cons, ih]
    cases joins : joining grouped inc with
    | none =>
      rw [join_none joins]
      have sameStays : stays grouped (inc :: incs) = stays grouped incs := by
        funext key
        simp [stays, joins]
      have sameGiven : extended grouped (inc :: incs) = extended grouped incs := by
        funext other
        simp [extended, given, joins]
      rw [sameStays, sameGiven]
    | some pair =>
      rw [join_some joins]
      have sameMap : extended grouped incs ∘ taking pair = extended grouped (inc :: incs) := by
        funext other
        simp only [Function.comp_apply, extended, taking_key]
        unfold given taking
        rw [filterMap_cons, joins, Option.bind_some]
        by_cases isKey : pair.2 = other.key
        · simp [isKey]
        · simp [isKey, Ne.symm isKey]
      rw [filter_map, filter_map, map_map, filter_filter, sameMap]
      congr 1
      refine filter_congr fun other _ => ?_
      simp only [Function.comp_apply, taking_key, stays, all_cons, joins,
        Option.isNone_some, Bool.false_or]
      rw [Bool.and_comm]
      congr 1
      exact decide_eq_decide.mpr ne_comm

/-! ### Where each detection ends -/

def groupedOf (values : Str → Int) (ds : List Detection) : List Incident :=
  (buckets values ds).filter (fun inc => !isSingle inc.key)

def joined (values : Str → Int) (ds : List Detection) (d : Detection) : Option Str :=
  if isSingle (groupKey d) then (linkIncident d (groupedOf values ds)).map Incident.key else none

def place (values : Str → Int) (ds : List Detection) (d : Detection) : Str :=
  (joined values ds d).getD (groupKey d)

def copyOf (values : Str → Int) (ds : List Detection) (d : Detection) : Detection :=
  match joined values ds d with
  | some key => viaLink d key
  | none => d

theorem copyOf_key : (copyOf values ds d).key = d.key := by
  unfold copyOf
  split <;> rfl

theorem group_eq : group ds values =
    ((buckets values ds).filter (fun inc =>
      stays (groupedOf values ds) (buckets values ds) inc.key)).map
        (extended (groupedOf values ds) (buckets values ds)) := foldl_join

theorem linkIncident_mem {joins : Incident} (isJoin : linkIncident d grouped = some joins) :
    joins ∈ grouped := by
  unfold linkIncident at isJoin
  split at isJoin
  · rename_i found isList
    have member : found ∈ grouped.filter (fun inc => decide (inc.key ∈ linkKeys d)) := by
      rw [isList]
      exact .head _
    rw [← Option.some.inj isJoin]
    exact (mem_filter.mp member).1
  · cases isJoin

theorem not_single_joined (isJoined : joined values ds d = some key) : isSingle key = false := by
  unfold joined at isJoined
  split at isJoined
  · obtain ⟨joins, isJoin, isKey⟩ := Option.map_eq_some_iff.mp isJoined
    have member := linkIncident_mem isJoin
    rw [← isKey]
    simpa using (mem_filter.mp member).2
  · cases isJoined

theorem joining_bucket (distinct : (ds.map Detection.key).Nodup) (isIn : d ∈ ds)
    (isBucket : inc ∈ buckets values ds) (isKey : groupKey d = inc.key) :
    joining (groupedOf values ds) inc = (joined values ds d).map (fun key => (d, key)) := by
  unfold joining joined
  rw [isKey]
  by_cases isSingle_ : isSingle inc.key = true
  · obtain ⟨only, onlyIn, isList, onlyKey⟩ := single_members distinct isBucket isSingle_
    have same : only = d := by
      have notSourced : ¬ Sourced d := isSingle_iff.mp (by rw [isKey]; exact isSingle_)
      have onlyNot : ¬ Sourced only := isSingle_iff.mp (by rw [onlyKey]; exact isSingle_)
      refine inj_on_of_nodup_map distinct onlyIn isIn (single_inj ?_)
      rw [← groupKey_single onlyNot, ← groupKey_single notSourced, onlyKey, isKey]
    rw [if_pos isSingle_, if_pos isSingle_, isList, same, Option.map_map]
    rfl
  · rw [if_neg isSingle_, if_neg isSingle_]
    rfl

theorem stays_bucket (distinct : (ds.map Detection.key).Nodup) (isIn : d ∈ ds)
    (isBucket : inc ∈ buckets values ds) (isKey : groupKey d = inc.key) :
    stays (groupedOf values ds) (buckets values ds) inc.key ↔ joined values ds d = none := by
  have ofBucket := joining_bucket distinct isIn isBucket isKey
  unfold stays
  rw [all_eq_true]
  constructor
  · intro all
    have own := all inc isBucket
    rw [ofBucket] at own
    simpa using own
  · intro isNone other isOther
    by_cases same : other.key = inc.key
    · have isInc : other = inc :=
        inj_on_of_nodup_map gathered_buckets.distinct isOther isBucket same
      rw [isInc, ofBucket, isNone]
      rfl
    · simp [same]

theorem mem_given (distinct : (ds.map Detection.key).Nodup) {m : Detection} :
    m ∈ given (groupedOf values ds) (buckets values ds) key ↔
      ∃ d ∈ ds, joined values ds d = some key ∧ m = viaLink d key := by
  unfold given
  rw [mem_filterMap]
  constructor
  · rintro ⟨inc, isBucket, isGiven⟩
    obtain ⟨pair, joins, isMember⟩ := Option.bind_eq_some_iff.mp isGiven
    obtain ⟨-, d, isIn, opens⟩ := bucket_members distinct isBucket
    rw [joining_bucket distinct isIn isBucket opens.key.symm] at joins
    obtain ⟨found, isJoined, isPair⟩ := Option.map_eq_some_iff.mp joins
    rw [← isPair] at isMember
    split at isMember
    · rename_i isKey
      dsimp only at isKey isMember
      rw [isKey] at isJoined
      exact ⟨d, isIn, isJoined, (Option.some.inj isMember).symm⟩
    · cases isMember
  · rintro ⟨d, isIn, isJoined, isMember⟩
    obtain ⟨inc, isBucket, isKey⟩ := every_bucket values isIn
    refine ⟨inc, isBucket, ?_⟩
    rw [joining_bucket distinct isIn isBucket isKey.symm, isJoined]
    simp [isMember]

structure Placed (values : Str → Int) (ds : List Detection) (result : List Incident) : Prop where
  distinct : (result.map Incident.key).Nodup
  every : ∀ d ∈ ds, ∃ inc ∈ result, inc.key = place values ds d
  opens : ∀ inc ∈ result, ∃ d ∈ ds, place values ds d = inc.key ∧ Opens values d inc
  members : ∀ inc ∈ result, ∀ m, m ∈ inc.members ↔
    ∃ d ∈ ds, place values ds d = inc.key ∧ m = copyOf values ds d
  once : ∀ inc ∈ result, (inc.members.map Detection.key).Nodup

theorem given_once (distinct : (ds.map Detection.key).Nodup) :
    ((given (groupedOf values ds) (buckets values ds) key).map Detection.key).Nodup := by
  have ofBuckets : (buckets values ds).Pairwise (fun one other => one.key ≠ other.key) :=
    pairwise_map.mp gathered_buckets.distinct
  refine pairwise_map.mpr (pairwise_filterMap.mpr (ofBuckets.imp_of_mem ?_))
  intro one other isOne isOther apart m isGiven n isAlso sameKey
  have keyOf (inc : Incident) (isBucket : inc ∈ buckets values ds) (m : Detection)
      (isGiven : ((joining (groupedOf values ds) inc).bind fun pair =>
        if pair.2 = key then some (viaLink pair.1 key) else none) = some m) :
      inc.key = ruleKey single m.key := by
    obtain ⟨pair, joins, isMember⟩ := Option.bind_eq_some_iff.mp isGiven
    obtain ⟨-, d, isIn, opens⟩ := bucket_members distinct isBucket
    rw [joining_bucket distinct isIn isBucket opens.key.symm] at joins
    obtain ⟨found, isJoined, isPair⟩ := Option.map_eq_some_iff.mp joins
    rw [← isPair] at isMember
    split at isMember
    · have isSingle_ : isSingle (groupKey d) := by
        by_contra notSingle
        unfold joined at isJoined
        rw [if_neg notSingle] at isJoined
        cases isJoined
      rw [opens.key, groupKey_single (isSingle_iff.mp isSingle_), ← Option.some.inj isMember]
      rfl
    · cases isMember
  exact apart (by rw [keyOf one isOne m isGiven, keyOf other isOther n isAlso, sameKey])

theorem placed_group (distinct : (ds.map Detection.key).Nodup) :
    Placed values ds (group ds values) := by
  have unmoved (d : Detection) (isNone : joined values ds d = none) :
      place values ds d = groupKey d ∧ copyOf values ds d = d := by
    simp [place, copyOf, isNone]
  have moved (d : Detection) (key : Str) (isJoined : joined values ds d = some key) :
      place values ds d = key ∧ copyOf values ds d = viaLink d key := by
    simp [place, copyOf, isJoined]
  have back (inc : Incident) (member : inc ∈ group ds values) : ∃ bucket ∈ buckets values ds,
      stays (groupedOf values ds) (buckets values ds) bucket.key = true ∧
        inc = extended (groupedOf values ds) (buckets values ds) bucket := by
    rw [group_eq] at member
    obtain ⟨bucket, isKept, isInc⟩ := mem_map.mp member
    obtain ⟨isBucket, isStay⟩ := mem_filter.mp isKept
    exact ⟨bucket, isBucket, isStay, isInc.symm⟩
  refine ⟨?_, ?_, ?_, ?_, ?_⟩
  · rw [group_eq, map_map]
    exact gathered_buckets.distinct.sublist (filter_sublist.map _)
  · intro d isIn
    rw [group_eq]
    have through (bucket : Incident) (isBucket : bucket ∈ buckets values ds)
        (isStay : stays (groupedOf values ds) (buckets values ds) bucket.key = true) :
        extended (groupedOf values ds) (buckets values ds) bucket ∈
          ((buckets values ds).filter (fun inc =>
            stays (groupedOf values ds) (buckets values ds) inc.key)).map
              (extended (groupedOf values ds) (buckets values ds)) :=
      mem_map_of_mem (mem_filter.mpr ⟨isBucket, isStay⟩)
    cases isJoined : joined values ds d with
    | none =>
      obtain ⟨bucket, isBucket, isKey⟩ := every_bucket values isIn
      refine ⟨_, through bucket isBucket
        ((stays_bucket distinct isIn isBucket isKey.symm).mpr isJoined), ?_⟩
      rw [(unmoved d isJoined).1, ← isKey]
      rfl
    | some key =>
      have isGrouped_ := not_single_joined isJoined
      have isJoined' := isJoined
      unfold joined at isJoined'
      split at isJoined'
      · obtain ⟨bucket, isJoin, isKey⟩ := Option.map_eq_some_iff.mp isJoined'
        have isBucket := (mem_filter.mp (linkIncident_mem isJoin)).1
        obtain ⟨-, first, firstIn, opens⟩ := bucket_members distinct isBucket
        have isNone : joined values ds first = none := by
          unfold joined
          rw [← opens.key, isKey, isGrouped_]
          rfl
        refine ⟨_, through bucket isBucket
          ((stays_bucket distinct firstIn isBucket opens.key.symm).mpr isNone), ?_⟩
        rw [(moved d key isJoined).1, ← isKey]
        rfl
      · cases isJoined'
  · intro inc member
    obtain ⟨bucket, isBucket, isStay, isInc⟩ := back inc member
    obtain ⟨-, d, isIn, opens⟩ := bucket_members distinct isBucket
    have isNone := (stays_bucket distinct isIn isBucket opens.key.symm).mp isStay
    rw [isInc]
    exact ⟨d, isIn, (unmoved d isNone).1.trans opens.key.symm,
      opens.key, opens.rule, opens.source, opens.window⟩
  · intro inc member m
    obtain ⟨bucket, isBucket, isStay, isInc⟩ := back inc member
    have isKey : inc.key = bucket.key := by rw [isInc]; rfl
    have isMembers : inc.members = bucket.members ++
        given (groupedOf values ds) (buckets values ds) bucket.key := by rw [isInc]; rfl
    rw [isMembers, isKey, mem_append, (bucket_members distinct isBucket).1, mem_filter,
      decide_eq_true_eq, mem_given distinct]
    constructor
    · rintro (⟨isIn, hasKey⟩ | ⟨d, isIn, isJoined, isMember⟩)
      · have isNone := (stays_bucket distinct isIn isBucket hasKey).mp isStay
        obtain ⟨isPlace, isCopy⟩ := unmoved m isNone
        exact ⟨m, isIn, isPlace.trans hasKey, isCopy.symm⟩
      · obtain ⟨isPlace, isCopy⟩ := moved d _ isJoined
        exact ⟨d, isIn, isPlace, isMember.trans isCopy.symm⟩
    · rintro ⟨d, isIn, isPlace, isMember⟩
      cases isJoined : joined values ds d with
      | none =>
        obtain ⟨ownPlace, isCopy⟩ := unmoved d isJoined
        rw [isMember, isCopy]
        exact .inl ⟨isIn, ownPlace.symm.trans isPlace⟩
      | some key =>
        obtain ⟨itsPlace, isCopy⟩ := moved d key isJoined
        have sameKey : key = bucket.key := itsPlace.symm.trans isPlace
        rw [sameKey] at isJoined isCopy
        exact .inr ⟨d, isIn, isJoined, isMember.trans isCopy⟩
  · intro inc member
    obtain ⟨bucket, isBucket, isStay, isInc⟩ := back inc member
    have isMembers : inc.members = bucket.members ++
        given (groupedOf values ds) (buckets values ds) bucket.key := by rw [isInc]; rfl
    rw [isMembers, map_append, (bucket_members distinct isBucket).1]
    refine nodup_append.mpr ⟨distinct.sublist (filter_sublist.map _),
      given_once distinct, ?_⟩
    intro one isOne other isOther same
    obtain ⟨d, isFiltered, isOneKey⟩ := mem_map.mp isOne
    obtain ⟨m, isGiven, isOtherKey⟩ := mem_map.mp isOther
    obtain ⟨isIn, hasKey⟩ := mem_filter.mp isFiltered
    obtain ⟨linked, linkedIn, isJoined, isMember⟩ := (mem_given distinct).mp isGiven
    have isLinked : linked = d := by
      refine inj_on_of_nodup_map distinct linkedIn isIn ?_
      rw [isOneKey, same, ← isOtherKey, isMember]
      rfl
    have isNone := (stays_bucket distinct isIn isBucket (of_decide_eq_true hasKey)).mp isStay
    rw [isLinked, isNone] at isJoined
    cases isJoined

/-! ### The order of the detections -/

def only : List Str → Option Str
  | [key] => some key
  | _ => none

theorem linkKey_eq : (linkIncident d grouped).map Incident.key =
    only ((grouped.map Incident.key).filter (fun key => decide (key ∈ linkKeys d))) := by
  unfold linkIncident
  rw [filter_map]
  have same : (fun key => decide (key ∈ linkKeys d)) ∘ Incident.key =
      fun inc => decide (inc.key ∈ linkKeys d) := rfl
  rw [same]
  split
  · rename_i inc isList
    rw [isList]
    rfl
  · rename_i notOne
    cases isList : grouped.filter (fun inc => decide (inc.key ∈ linkKeys d)) with
    | nil => rfl
    | cons first rest =>
      cases rest with
      | nil => exact absurd isList (notOne first)
      | cons second rest => rfl

omit [Readers] in
theorem only_perm {keys others : List Str} (isPerm : keys.Perm others) :
    only keys = only others := by
  cases keys with
  | nil => rw [isPerm.nil_eq]
  | cons first rest =>
    cases rest with
    | nil => rw [singleton_perm.mp isPerm]
    | cons second rest =>
      have sameLength := isPerm.length_eq
      cases others with
      | nil => cases sameLength
      | cons other more =>
        cases more with
        | nil => simp at sameLength
        | cons another more => rfl

theorem joined_perm {others : List Detection} (isPerm : ds.Perm others) (d : Detection) :
    joined values ds d = joined values others d := by
  have isKey (of_ : List Detection) (key : Str) :
      key ∈ (groupedOf values of_).map Incident.key ↔
        isSingle key = false ∧ ∃ d ∈ of_, groupKey d = key := by
    have isBucketKey : key ∈ (buckets values of_).map Incident.key ↔
        ∃ d ∈ of_, groupKey d = key := gathered_buckets.mem_keys
    rw [← isBucketKey, groupedOf]
    constructor
    · intro member
      obtain ⟨inc, isIn, isInc⟩ := mem_map.mp member
      obtain ⟨isBucket, notSingle⟩ := mem_filter.mp isIn
      rw [isInc] at notSingle
      exact ⟨by simpa using notSingle, mem_map.mpr ⟨inc, isBucket, isInc⟩⟩
    · rintro ⟨notSingle, member⟩
      obtain ⟨inc, isBucket, isInc⟩ := mem_map.mp member
      refine mem_map.mpr ⟨inc, mem_filter.mpr ⟨isBucket, ?_⟩, isInc⟩
      rw [isInc, notSingle]
      rfl
  have sameKeys : ((groupedOf values ds).map Incident.key).Perm
      ((groupedOf values others).map Incident.key) := by
    refine (perm_ext_iff_of_nodup ?_ ?_).mpr ?_
    · exact gathered_buckets.distinct.sublist (filter_sublist.map _)
    · exact gathered_buckets.distinct.sublist (filter_sublist.map _)
    · intro key
      rw [isKey, isKey]
      refine and_congr_right fun _ => ?_
      constructor
      · rintro ⟨d, isIn, hasKey⟩
        exact ⟨d, isPerm.mem_iff.mp isIn, hasKey⟩
      · rintro ⟨d, isIn, hasKey⟩
        exact ⟨d, isPerm.mem_iff.mpr isIn, hasKey⟩
  unfold joined
  rw [linkKey_eq, linkKey_eq, only_perm (sameKeys.filter _)]

theorem place_perm {others : List Detection} (isPerm : ds.Perm others) (d : Detection) :
    place values ds d = place values others d := by
  unfold place
  rw [joined_perm isPerm]

theorem copyOf_perm {others : List Detection} (isPerm : ds.Perm others) (d : Detection) :
    copyOf values ds d = copyOf values others d := by
  unfold copyOf
  rw [joined_perm isPerm]

/-- The same incident, its members in any order. -/
structure Same (one other : Incident) : Prop where
  key : one.key = other.key
  rule : one.rule = other.rule
  source : one.source = other.source
  window : one.window = other.window
  members : one.members.Perm other.members

theorem same_of_opens {e : Detection} {one other : Incident}
    (distinct : (ds.map Detection.key).Nodup) (isIn : d ∈ ds) (otherIn : e ∈ ds)
    (opens : Opens values d one) (otherOpens : Opens values e other) (isKey : one.key = other.key)
    (members : one.members.Perm other.members) : Same one other := by
  have sameKey : groupKey d = groupKey e := by rw [← opens.key, ← otherOpens.key, isKey]
  have alike : d.rule = e.rule ∧
      (isSingle (groupKey e) = true ∨ canonSource d.source = canonSource e.source) := by
    by_cases sourced : Sourced e
    · have isSourced : Sourced d := by
        by_contra notSourced
        have isSingle_ := isSingle_iff.mpr notSourced
        rw [sameKey] at isSingle_
        exact isSingle_iff.mp isSingle_ sourced
      rw [groupKey_sourced isSourced, groupKey_sourced sourced] at sameKey
      obtain ⟨isRule, isSource⟩ := ruleKey_inj isSourced.1 sourced.1 sameKey
      exact ⟨isRule, .inr isSource⟩
    · have isSingle_ := isSingle_iff.mpr sourced
      have notSourced : ¬ Sourced d := isSingle_iff.mp (by rw [sameKey]; exact isSingle_)
      rw [groupKey_single notSourced, groupKey_single sourced] at sameKey
      have isSame := inj_on_of_nodup_map distinct isIn otherIn (single_inj sameKey)
      exact ⟨by rw [isSame], .inl isSingle_⟩
  refine ⟨isKey, ?_, ?_, ?_, members⟩
  · rw [opens.rule, otherOpens.rule, alike.1]
  · rw [opens.source, otherOpens.source, sameKey]
    rcases alike.2 with isSingle_ | isSource
    · rw [if_pos isSingle_, if_pos isSingle_]
    · rw [isSource]
  · rw [opens.window, otherOpens.window, alike.1]

/-- Grouping loses and duplicates no detection, keeps a source's detections of one rule in
one incident, and is the same whatever order they came in. -/
theorem group_exact (distinct : (ds.map Detection.key).Nodup) :
    (∀ d ∈ ds, ∃ inc ∈ group ds values,
      (d ∈ inc.members ∨ viaLink d inc.key ∈ inc.members) ∧
      ∀ other ∈ group ds values, d ∈ other.members ∨ viaLink d other.key ∈ other.members →
        other = inc) ∧
    (((group ds values).flatMap Incident.members).map Detection.key).Perm
      (ds.map Detection.key) ∧
    (∀ inc ∈ group ds values, ∀ m ∈ inc.members, ∃ d ∈ ds, m = d ∨ m = viaLink d inc.key) ∧
    (∀ d ∈ ds, ∀ e ∈ ds, isGrouped d.rule = true → e.rule = d.rule →
      canonSource d.source ≠ [] → canonSource e.source = canonSource d.source →
        ∃ inc ∈ group ds values, d ∈ inc.members ∧ e ∈ inc.members) ∧
    (∀ others, ds.Perm others → ∃ ordered, ordered.Perm (group others values) ∧
      List.Forall₂ Same (group ds values) ordered) := by
  have placed : Placed values ds (group ds values) := placed_group distinct
  have keyed (inc : Incident) (isInc : inc ∈ group ds values) (key : Str)
      (member : key ∈ inc.members.map Detection.key) (d : Detection) (isIn : d ∈ ds)
      (isKey : d.key = key) : place values ds d = inc.key := by
    obtain ⟨m, isMember, hasKey⟩ := List.mem_map.mp member
    obtain ⟨e, otherIn, isPlace, isCopy⟩ := (placed.members inc isInc m).mp isMember
    have same : d = e := by
      refine List.inj_on_of_nodup_map distinct isIn otherIn ?_
      rw [isKey, ← hasKey, isCopy, copyOf_key]
    rw [same]
    exact isPlace
  have copied (inc : Incident) (isInc : inc ∈ group ds values) (d : Detection)
      (isPlace : inc.key = place values ds d) :
      copyOf values ds d = d ∨ copyOf values ds d = viaLink d inc.key := by
    rw [isPlace]
    unfold copyOf place
    cases joined values ds d with
    | none => exact Or.inl rfl
    | some key => exact Or.inr rfl
  refine ⟨?_, ?_, ?_, ?_, ?_⟩
  · intro d isIn
    obtain ⟨inc, isInc, isPlace⟩ := placed.every d isIn
    have isMember := (placed.members inc isInc _).mpr ⟨d, isIn, isPlace.symm, rfl⟩
    refine ⟨inc, isInc, ?_, ?_⟩
    · rcases copied inc isInc d isPlace with isCopy | isCopy
      · rw [isCopy] at isMember
        exact Or.inl isMember
      · rw [isCopy] at isMember
        exact Or.inr isMember
    · intro other isOther holds
      have inKeys : d.key ∈ other.members.map Detection.key := by
        rcases holds with itself | copy
        · exact List.mem_map.mpr ⟨d, itself, rfl⟩
        · exact List.mem_map.mpr ⟨_, copy, rfl⟩
      refine List.inj_on_of_nodup_map placed.distinct isOther isInc ?_
      rw [isPlace, keyed other isOther d.key inKeys d isIn rfl]
  · rw [List.map_flatMap]
    refine (List.perm_ext_iff_of_nodup (List.nodup_flatMap.mpr ⟨placed.once, ?_⟩) distinct).mpr ?_
    · refine (List.pairwise_map.mp placed.distinct).imp_of_mem ?_
      intro one other isOne isOther apart key inOne inOther
      obtain ⟨m, isMember, hasKey⟩ := List.mem_map.mp inOne
      obtain ⟨d, isIn, isPlace, isCopy⟩ := (placed.members one isOne m).mp isMember
      have isKey : d.key = key := by rw [← hasKey, isCopy, copyOf_key]
      exact apart (isPlace.symm.trans (keyed other isOther key inOther d isIn isKey))
    · intro key
      rw [List.mem_flatMap]
      constructor
      · rintro ⟨inc, isInc, member⟩
        obtain ⟨m, isMember, hasKey⟩ := List.mem_map.mp member
        obtain ⟨d, isIn, -, isCopy⟩ := (placed.members inc isInc m).mp isMember
        exact List.mem_map.mpr ⟨d, isIn, by rw [← hasKey, isCopy, copyOf_key]⟩
      · intro member
        obtain ⟨d, isIn, hasKey⟩ := List.mem_map.mp member
        obtain ⟨inc, isInc, isPlace⟩ := placed.every d isIn
        refine ⟨inc, isInc, List.mem_map.mpr ⟨copyOf values ds d, ?_, ?_⟩⟩
        · exact (placed.members inc isInc _).mpr ⟨d, isIn, isPlace.symm, rfl⟩
        · rw [copyOf_key, hasKey]
  · intro inc isInc m isMember
    obtain ⟨d, isIn, isPlace, isCopy⟩ := (placed.members inc isInc m).mp isMember
    rw [isCopy]
    exact ⟨d, isIn, copied inc isInc d isPlace.symm⟩
  · intro d isIn e otherIn isGrouped_ sameRule isSource sameSource
    have sourced : Sourced d := ⟨isGrouped_, isSource⟩
    have otherSourced : Sourced e := ⟨sameRule ▸ isGrouped_, sameSource ▸ isSource⟩
    have unmoved (d : Detection) (sourced : Sourced d) :
        place values ds d = groupKey d ∧ copyOf values ds d = d := by
      have isNone : joined values ds d = none := by
        unfold joined
        rw [if_neg (fun isSingle_ => isSingle_iff.mp isSingle_ sourced)]
      simp [place, copyOf, isNone]
    obtain ⟨inc, isInc, isPlace⟩ := placed.every d isIn
    have sameKey : groupKey e = groupKey d := by
      rw [groupKey_sourced sourced, groupKey_sourced otherSourced, sameRule, sameSource]
    refine ⟨inc, isInc, (placed.members inc isInc d).mpr ⟨d, isIn, isPlace.symm, ?_⟩,
      (placed.members inc isInc e).mpr ⟨e, otherIn, ?_, ?_⟩⟩
    · exact (unmoved d sourced).2.symm
    · rw [(unmoved e otherSourced).1, sameKey, isPlace, (unmoved d sourced).1]
    · exact (unmoved e otherSourced).2.symm
  · intro others isPerm
    have otherDistinct : (others.map Detection.key).Nodup :=
      (isPerm.map Detection.key).nodup_iff.mp distinct
    have otherPlaced : Placed values others (group others values) := placed_group otherDistinct
    have sameMembers (one : Incident) (isOne : one ∈ group ds values) (other : Incident)
        (isOther : other ∈ group others values) (isKey : one.key = other.key) :
        one.members.Perm other.members := by
      refine (List.perm_ext_iff_of_nodup (placed.once one isOne).of_map
        (otherPlaced.once other isOther).of_map).mpr fun m => ?_
      rw [placed.members one isOne, otherPlaced.members other isOther, isKey]
      constructor
      · rintro ⟨d, isIn, isPlace, isCopy⟩
        rw [place_perm isPerm] at isPlace
        rw [copyOf_perm isPerm] at isCopy
        exact ⟨d, isPerm.mem_iff.mp isIn, isPlace, isCopy⟩
      · rintro ⟨d, isIn, isPlace, isCopy⟩
        rw [← place_perm isPerm] at isPlace
        rw [← copyOf_perm isPerm] at isCopy
        exact ⟨d, isPerm.mem_iff.mpr isIn, isPlace, isCopy⟩
    refine exists_perm_forall₂ placed.distinct otherPlaced.distinct ?_ ?_
    · intro key
      constructor
      · intro member
        obtain ⟨inc, isInc, isKey⟩ := List.mem_map.mp member
        obtain ⟨d, isIn, isPlace, -⟩ := placed.opens inc isInc
        obtain ⟨other, isOther, otherPlace⟩ := otherPlaced.every d (isPerm.mem_iff.mp isIn)
        refine List.mem_map.mpr ⟨other, isOther, ?_⟩
        rw [otherPlace, ← place_perm isPerm, isPlace, isKey]
      · intro member
        obtain ⟨inc, isInc, isKey⟩ := List.mem_map.mp member
        obtain ⟨d, isIn, isPlace, -⟩ := otherPlaced.opens inc isInc
        obtain ⟨other, isOther, otherPlace⟩ := placed.every d (isPerm.mem_iff.mpr isIn)
        refine List.mem_map.mpr ⟨other, isOther, ?_⟩
        rw [otherPlace, place_perm isPerm, isPlace, isKey]
    · intro one isOne other isOther isKey
      obtain ⟨d, isIn, -, opens⟩ := placed.opens one isOne
      obtain ⟨e, otherIn, -, otherOpens⟩ := otherPlaced.opens other isOther
      exact same_of_opens distinct isIn (isPerm.mem_iff.mpr otherIn) opens otherOpens isKey
        (sameMembers one isOne other isOther isKey)

omit [Readers] in
/-- A flood at its host's switch and the same flood arriving on a link are one incident,
whichever comes first. -/
theorem group_exact_link :
    letI : Readers := plainReaders
    let atHost : Detection := ⟨"a1".ascii, "flood".ascii, "00:00:00:00:00:0A".ascii,
      "host".ascii, [], "1".ascii, "High packet rate".ascii⟩
    let onLink : Detection := ⟨"b2".ascii, "flood".ascii, [], "link".ascii,
      [⟨"00:00:00:00:00:0a".ascii, []⟩], "3".ascii, "High packet rate".ascii⟩
    (group [atHost, onLink] (fun _ => 30)).map (fun inc => inc.members.map Detection.key) =
      [["a1".ascii, "b2".ascii]] ∧
    ∃ ordered, ordered.Perm (group [onLink, atHost] (fun _ => 30)) ∧
      List.Forall₂ Same (group [atHost, onLink] (fun _ => 30)) ordered := by
  letI : Readers := plainReaders
  intro atHost onLink
  have distinct : ([atHost, onLink].map Detection.key).Nodup := by decide +kernel
  exact ⟨by decide +kernel, (group_exact distinct).2.2.2.2 _ (List.Perm.swap _ _ _)⟩

end Nmas.Sdn.Incidents
