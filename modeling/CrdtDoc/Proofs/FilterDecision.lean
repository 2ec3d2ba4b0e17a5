import CrdtDoc.Proofs.FilteredUpdate

/-
  This file shows how a filter comes to its decision.  Of all
  the starts of a path, the longest one that is listed
  decides, so that neither the order of the listed paths nor
  their repetition matters.  A filter that lists one more
  path to exclude lets no more through, and one that lists
  one more path to include lets no less through, unless it
  included nothing before.

  Key definitions include:
    * `Listing`
    * `Filter.ofListings`
    * `IsLongestStart`
    * `Listing.Determine`
    * `Filter.IsWithin`
    * `Update.IsPart`

  Main declarations:
    * `Filter.allows_iff_of_isLongestStart`
    * `Filter.determine_allows`
    * `Filter.isPart_apply`
    * `Filter.isWithin_of_listing`
-/

namespace CrdtDoc

------------------------------------------------------------
-- Listings
------------------------------------------------------------

/- One more path that a filter is to list. -/
inductive Listing where
  | including (path : List String)
  | excluding (path : List String)
deriving DecidableEq, Repr

namespace Listing

/- The path that is listed. -/
def path : Listing → List String
  | .including path => path
  | .excluding path => path

/- The filter that lists the path as well. -/
def addTo
    (filter : Filter) : Listing → Filter
  | .including path => filter.including path
  | .excluding path => filter.excluding path

end Listing

namespace Filter

/- The filter that lists some paths, one after the other. -/
def ofListings
    (listings : List Listing) : Filter :=
  listings.foldl Listing.addTo .all

/- A path is listed if it was before, or is listed anew. -/
theorem mem_foldl_addTo_iff
    (filter : Filter)
    (listings : List Listing)
    (start : List String) :
    let added := listings.foldl Listing.addTo filter
    (start ∈ added.included ↔
      start ∈ filter.included ∨
        .including start ∈ listings) ∧
    (start ∈ added.excluded ↔
      start ∈ filter.excluded ∨
        .excluding start ∈ listings) := by
  induction listings generalizing filter with
  | nil => simp
  | cons listing rest ih =>
      rcases ih (listing.addTo filter)
        with ⟨hIncluded, hExcluded⟩
      simp only [List.foldl_cons, hIncluded, hExcluded]
      cases listing with
      | including path =>
          simp [Listing.addTo, including, or_assoc]
      | excluding path =>
          simp [Listing.addTo, excluding, or_assoc]

/- What is listed as included is included. -/
theorem mem_included_ofListings_iff
    {listings : List Listing}
    {start : List String} :
    start ∈ (ofListings listings).included ↔
      .including start ∈ listings := by
  refine (mem_foldl_addTo_iff .all listings start).1.trans ?_
  exact or_iff_right List.not_mem_nil

/- What is listed as excluded is excluded. -/
theorem mem_excluded_ofListings_iff
    {listings : List Listing}
    {start : List String} :
    start ∈ (ofListings listings).excluded ↔
      .excluding start ∈ listings := by
  refine (mem_foldl_addTo_iff .all listings start).2.trans ?_
  exact or_iff_right List.not_mem_nil

end Filter

------------------------------------------------------------
-- Longest Starts
------------------------------------------------------------

/- The longest of the starts of a path that are listed. -/
structure IsLongestStart
    (Listed : List String → Prop)
    (path start : List String) : Prop where
  isStart : start <+: path
  listed : Listed start
  longest :
    ∀ other,
      other <+: path → Listed other →
        other.length ≤ start.length

/- A short path starts another one if it starts its front. -/
theorem isStart_append_iff
    {path other : List String}
    (hShort : other.length ≤ path.length)
    (rest : List String) :
    other <+: path ++ rest ↔ other <+: path :=
  ⟨fun hPrefix =>
    List.prefix_of_prefix_length_le hPrefix
      (List.prefix_append path rest) hShort,
    List.prefix_append_of_prefix⟩

namespace IsLongestStart

variable {Listed Others : List String → Prop}
variable {path start other : List String}

/- No two starts of a path are the longest. -/
theorem unique
    (hStart : IsLongestStart Listed path start)
    (hOther : IsLongestStart Listed path other) :
    start = other := by
  have hLe :=
    hOther.longest start hStart.isStart hStart.listed
  have hGe :=
    hStart.longest other hOther.isStart hOther.listed
  have hPrefix :=
    List.prefix_of_prefix_length_le hStart.isStart
      hOther.isStart hLe
  exact hPrefix.eq_of_length (Nat.le_antisymm hLe hGe)

/- A longest start stays one if fewer others are listed. -/
theorem of_listed
    (hStart : IsLongestStart Listed path start)
    (hListed : Others start)
    (hFewer : ∀ other, Others other → Listed other) :
    IsLongestStart Others path start where
  isStart := hStart.isStart
  listed := hListed
  longest other hPrefix hOther :=
    hStart.longest other hPrefix (hFewer other hOther)

/- The longest start is the same for the same listed paths. -/
theorem congr_listed
    (hListed : ∀ other, Listed other ↔ Others other) :
    IsLongestStart Listed path start ↔
      IsLongestStart Others path start :=
  ⟨fun hStart =>
    hStart.of_listed ((hListed start).mp hStart.listed)
      fun other => (hListed other).mpr,
    fun hStart =>
      hStart.of_listed ((hListed start).mpr hStart.listed)
        fun other => (hListed other).mp⟩

/- A path's listed starts are those of any longer path. -/
theorem append_iff
    (hShort :
      ∀ other, Listed other → other.length ≤ path.length)
    (rest : List String) :
    IsLongestStart Listed (path ++ rest) start ↔
      IsLongestStart Listed path start := by
  constructor
  · rintro ⟨hStart, hListed, hLongest⟩
    have hFront :=
      (isStart_append_iff (hShort start hListed) rest).mp
        hStart
    refine ⟨hFront, hListed, ?_⟩
    intro other hOther
    exact hLongest other
      (List.prefix_append_of_prefix hOther)
  · rintro ⟨hStart, hListed, hLongest⟩
    refine
      ⟨List.prefix_append_of_prefix hStart, hListed, ?_⟩
    intro other hOther hOtherListed
    have hFront :=
      (isStart_append_iff (hShort other hOtherListed)
        rest).mp hOther
    exact hLongest other hFront hOtherListed

end IsLongestStart

------------------------------------------------------------
-- Decisions
------------------------------------------------------------

namespace Filter

variable {filter other : Filter}
variable {path start : List String}
variable {listed : List (List String)}

/- A depth is the length of a longest listed start. -/
theorem depth?_eq_some_iff
    {depth : Nat} :
    depth? listed path = some depth ↔
      ∃ start,
        IsLongestStart (· ∈ listed) path start ∧
        start.length = depth := by
  unfold depth?
  rw [List.max?_eq_some_iff]
  simp only [List.mem_map, List.mem_filter,
    List.isPrefixOf_iff_prefix]
  constructor
  · rintro ⟨⟨start, ⟨hListed, hPrefix⟩, rfl⟩, hLongest⟩
    refine ⟨start, ⟨hPrefix, hListed, ?_⟩, rfl⟩
    intro other hOther hOtherListed
    exact hLongest _ ⟨other, ⟨hOtherListed, hOther⟩, rfl⟩
  · rintro ⟨start, ⟨hPrefix, hListed, hLongest⟩, rfl⟩
    refine ⟨⟨start, ⟨hListed, hPrefix⟩, rfl⟩, ?_⟩
    rintro _ ⟨other, ⟨hOtherListed, hOther⟩, rfl⟩
    exact hLongest other hOther hOtherListed

/- There is no depth where no start is listed. -/
theorem depth?_eq_none_iff :
    depth? listed path = none ↔
      ∀ start ∈ listed, ¬start <+: path := by
  unfold depth?
  rw [List.max?_eq_none_iff, List.map_eq_nil_iff,
    List.filter_eq_nil_iff]
  simp only [List.isPrefixOf_iff_prefix]

/- Is a path listed, to include it or to exclude it? -/
def Lists
    (filter : Filter)
    (start : List String) : Prop :=
  start ∈ filter.included ∨ start ∈ filter.excluded

/- A path has a longest listed start, or none is listed. -/
theorem exists_isLongestStart_or
    (filter : Filter)
    (path : List String) :
    (∃ start, IsLongestStart filter.Lists path start) ∨
      ∀ start, filter.Lists start → ¬start <+: path := by
  have hLists :
      ∀ start,
        start ∈ filter.included ++ filter.excluded ↔
          filter.Lists start := by
    intro start
    exact List.mem_append
  cases hDepth :
      depth? (filter.included ++ filter.excluded) path with
  | none =>
      refine Or.inr fun start hListed => ?_
      exact depth?_eq_none_iff.mp hDepth start
        ((hLists start).mpr hListed)
  | some depth =>
      rcases depth?_eq_some_iff.mp hDepth
        with ⟨start, hStart, _⟩
      exact Or.inl
        ⟨start,
          (IsLongestStart.congr_listed hLists).mp hStart⟩

/- A longest start that is included lets its path through. -/
theorem allows_of_included
    (hStart : IsLongestStart filter.Lists path start)
    (hIncluded : start ∈ filter.included) :
    filter.allows path = true := by
  have hDepth :
      depth? filter.included path = some start.length :=
    depth?_eq_some_iff.mpr
      ⟨start,
        hStart.of_listed hIncluded fun _ => Or.inl, rfl⟩
  rw [allows_eq_decision, decision, hDepth]
  cases hExcluded : depth? filter.excluded path with
  | none => rfl
  | some excluded =>
      rcases depth?_eq_some_iff.mp hExcluded
        with ⟨other, hOther, rfl⟩
      exact decide_eq_true
        (hStart.longest other hOther.isStart
          (Or.inr hOther.listed))

/- A longest start that is not included holds it back. -/
theorem not_allows_of_not_included
    (hStart : IsLongestStart filter.Lists path start)
    (hIncluded : start ∉ filter.included) :
    filter.allows path = false := by
  have hExcluded : start ∈ filter.excluded :=
    hStart.listed.resolve_left hIncluded
  have hDepth :
      depth? filter.excluded path = some start.length :=
    depth?_eq_some_iff.mpr
      ⟨start,
        hStart.of_listed hExcluded fun _ => Or.inr, rfl⟩
  rw [allows_eq_decision, decision, hDepth]
  cases hOthers : depth? filter.included path with
  | none => rfl
  | some included =>
      rcases depth?_eq_some_iff.mp hOthers
        with ⟨other, hOther, rfl⟩
      refine decide_eq_false fun hLe => hIncluded ?_
      -- An included start as long as this one is this one.
      have hPrefix :=
        List.prefix_of_prefix_length_le hStart.isStart
          hOther.isStart hLe
      have hLength :=
        hStart.longest other hOther.isStart
          (Or.inl hOther.listed)
      rw [hPrefix.eq_of_length (Nat.le_antisymm hLe hLength)]
      exact hOther.listed

/- So the longest listed start of a path decides. -/
theorem allows_iff_of_isLongestStart
    (hStart : IsLongestStart filter.Lists path start) :
    filter.allows path = true ↔ start ∈ filter.included := by
  constructor
  · intro hAllows
    by_contra hIncluded
    rw [not_allows_of_not_included hStart hIncluded]
      at hAllows
    cases hAllows
  · exact allows_of_included hStart

/- Where no start is listed, nothing must be included. -/
theorem allows_iff_of_not_listed
    (hNone : ∀ start, filter.Lists start → ¬start <+: path) :
    filter.allows path = true ↔ filter.included = [] := by
  have hIncluded : depth? filter.included path = none :=
    depth?_eq_none_iff.mpr fun start hMem =>
      hNone start (Or.inl hMem)
  have hExcluded : depth? filter.excluded path = none :=
    depth?_eq_none_iff.mpr fun start hMem =>
      hNone start (Or.inr hMem)
  rw [allows_eq_decision, decision, hIncluded, hExcluded]
  exact List.isEmpty_iff

/-
  A path is let through if its longest listed start is
  included, or if no start is listed and nothing included.
-/
theorem allows_iff
    (filter : Filter)
    (path : List String) :
    filter.allows path = true ↔
      (∃ start ∈ filter.included,
        IsLongestStart filter.Lists path start) ∨
      (filter.included = [] ∧
        ∀ start, filter.Lists start → ¬start <+: path) := by
  rcases filter.exists_isLongestStart_or path
    with ⟨start, hStart⟩ | hNone
  · have hNot :
        ¬∀ start, filter.Lists start → ¬start <+: path :=
      fun hNone => hNone start hStart.listed hStart.isStart
    rw [or_iff_left fun hBoth => hNot hBoth.2]
    constructor
    · intro hAllows
      exact
        ⟨start,
          (allows_iff_of_isLongestStart hStart).mp hAllows,
          hStart⟩
    · rintro ⟨longest, hIncluded, hLongest⟩
      exact allows_of_included hLongest hIncluded
  · rw [allows_iff_of_not_listed hNone]
    constructor
    · intro hNil
      exact Or.inr ⟨hNil, hNone⟩
    · rintro (⟨start, _, hStart⟩ | ⟨hNil, _⟩)
      · exact absurd hStart.isStart
          (hNone start hStart.listed)
      · exact hNil

/- Filters that list the same paths decide the same. -/
theorem allows_congr
    (hIncluded :
      ∀ start,
        start ∈ filter.included ↔ start ∈ other.included)
    (hExcluded :
      ∀ start,
        start ∈ filter.excluded ↔ start ∈ other.excluded)
    (path : List String) :
    filter.allows path = other.allows path := by
  have hLists :
      ∀ start, filter.Lists start ↔ other.Lists start := by
    intro start
    exact or_congr (hIncluded start) (hExcluded start)
  have hNil :
      filter.included = [] ↔ other.included = [] := by
    simp only [List.eq_nil_iff_forall_not_mem, hIncluded]
  rw [Bool.eq_iff_iff, allows_iff, allows_iff, hNil]
  simp only [hLists, hIncluded,
    IsLongestStart.congr_listed hLists]

/- Past all listed paths, nothing is decided anew. -/
theorem allows_append
    (hShort :
      ∀ start,
        filter.Lists start → start.length ≤ path.length)
    (rest : List String) :
    filter.allows (path ++ rest) = filter.allows path := by
  have hNone :
      (∀ start, filter.Lists start → ¬start <+: path ++ rest)
        ↔ ∀ start, filter.Lists start → ¬start <+: path := by
    refine forall₂_congr fun start hListed => not_congr ?_
    exact isStart_append_iff (hShort start hListed) rest
  rw [Bool.eq_iff_iff, allows_iff, allows_iff, hNone]
  simp only [IsLongestStart.append_iff hShort]

/- The paths that are listed are those of the listings. -/
theorem lists_ofListings_iff
    {listings : List Listing} :
    (ofListings listings).Lists start ↔
      start ∈ listings.map Listing.path := by
  rw [Lists, mem_included_ofListings_iff,
    mem_excluded_ofListings_iff, List.mem_map]
  constructor
  · rintro (hIncluding | hExcluding)
    · exact ⟨_, hIncluding, rfl⟩
    · exact ⟨_, hExcluding, rfl⟩
  · rintro ⟨listing, hListing, rfl⟩
    cases listing with
    | including path => exact Or.inl hListing
    | excluding path => exact Or.inr hListing

end Filter

/-
  Some listings determine a decision.  The longest start of
  a path that they list, if there is one, lets the path
  through if it is to be included; else the path is let
  through if nothing is to be included.
-/
structure Listing.Determine
    (listings : List Listing)
    (allows : List String → Bool) : Prop where
  exists_longest :
    ∀ path,
      (∃ start,
        IsLongestStart (· ∈ listings.map Listing.path) path
          start) ∨
        ∀ listing ∈ listings, ¬listing.path <+: path
  of_longest :
    ∀ path start,
      IsLongestStart (· ∈ listings.map Listing.path) path
          start →
        (allows path = true ↔ .including start ∈ listings)
  of_none :
    ∀ path,
      (∀ listing ∈ listings, ¬listing.path <+: path) →
        (allows path = true ↔
          ∀ start, .including start ∉ listings)

namespace Filter

/- A filter decides as its listings determine. -/
theorem determine_ofListings
    (listings : List Listing) :
    Listing.Determine listings
      (ofListings listings).allows := by
  let filter := ofListings listings
  have hLongest :
      ∀ path start,
        IsLongestStart filter.Lists path start ↔
          IsLongestStart (· ∈ listings.map Listing.path) path
            start := by
    intro path start
    exact IsLongestStart.congr_listed
      fun other => lists_ofListings_iff
  have hNone :
      ∀ path,
        (∀ start, filter.Lists start → ¬start <+: path) ↔
          ∀ listing ∈ listings, ¬listing.path <+: path := by
    intro path
    constructor
    · intro hNone listing hListing
      exact hNone _
        (lists_ofListings_iff.mpr
          (List.mem_map_of_mem hListing))
    · intro hNone start hListed
      rcases List.mem_map.mp
        (lists_ofListings_iff.mp hListed)
        with ⟨listing, hListing, rfl⟩
      exact hNone listing hListing
  refine
    { exists_longest := ?_
      of_longest := ?_
      of_none := ?_ }
  · intro path
    have hEither := filter.exists_isLongestStart_or path
    simpa only [hLongest, hNone] using hEither
  · intro path start hStart
    rw [← hLongest] at hStart
    rw [← mem_included_ofListings_iff]
    exact allows_iff_of_isLongestStart hStart
  · intro path hListed
    rw [← hNone] at hListed
    rw [allows_iff_of_not_listed hListed,
      List.eq_nil_iff_forall_not_mem]
    exact forall_congr' fun start =>
      not_congr mem_included_ofListings_iff

/-
  A filter decides by the longest listed start of a path.
  So it decides the same if paths are listed in another
  order or more than once, and the same for all paths that
  go on from one as long as each listed path.
-/
theorem determine_allows
    (listings : List Listing) :
    Listing.Determine listings (ofListings listings).allows ∧
    (∀ others : List Listing,
      (∀ listing, listing ∈ others ↔ listing ∈ listings) →
        ∀ path,
          (ofListings others).allows path =
            (ofListings listings).allows path) ∧
    ∀ path rest,
      (∀ listing ∈ listings,
        listing.path.length ≤ path.length) →
        (ofListings listings).allows (path ++ rest) =
          (ofListings listings).allows path := by
  refine ⟨determine_ofListings listings, ?_, ?_⟩
  · intro others hSame
    apply allows_congr
    · intro start
      rw [mem_included_ofListings_iff,
        mem_included_ofListings_iff, hSame]
    · intro start
      rw [mem_excluded_ofListings_iff,
        mem_excluded_ofListings_iff, hSame]
  · intro path rest hShort
    refine allows_append (fun start hListed => ?_) rest
    rcases List.mem_map.mp (lists_ofListings_iff.mp hListed)
      with ⟨listing, hListing, rfl⟩
    exact hShort listing hListing

end Filter

------------------------------------------------------------
-- One More Listing
------------------------------------------------------------

namespace Update

/- What an update writes under a name, but for maps. -/
inductive Field where
  | register (value : Bytes)
  | counter (amount : Integer .i64)
  | adds (members : List Bytes)
  | removes (members : List Bytes)
  | flag (state : Bool)
deriving DecidableEq, Repr

/- An entry of an update has a field. -/
def Entry.Holds
    (entry : Entry) : Field → Prop
  | .register value => entry.register = some value
  | .counter amount => entry.counter = some amount
  | .adds members => entry.adds = some members
  | .removes members => entry.removes = some members
  | .flag state => entry.flag = some state

/- The entry that writes nothing has no field. -/
theorem Entry.not_holds_none
    (field : Field) :
    ¬Entry.none.Holds field := by
  cases field <;> (intro hHolds; cases hHolds)

/- All fields of an update are fields of another one. -/
def IsPart
    (part whole : Update) : Prop :=
  ∀ path name field,
    (part.leaf path name).Holds field →
      (whole.leaf path name).Holds field

end Update

namespace Filter

variable {filter other : Filter}

/- All that a filter lets through another one does, too. -/
def IsWithin
    (filter other : Filter) : Prop :=
  ∀ path, filter.allows path = true → other.allows path = true

/- The fields let through are those of the paths that are. -/
theorem holds_apply_iff
    {update : Update}
    {path : List String}
    {name : String}
    {field : Update.Field} :
    ((filter.apply update).leaf path name).Holds field ↔
      filter.allows (path ++ [name]) = true ∧
        (update.leaf path name).Holds field := by
  rw [apply, leaf_applyAt, List.nil_append]
  split
  · rename_i hAllows
    exact (and_iff_right hAllows).symm
  · rename_i hAllows
    exact iff_of_false (Update.Entry.not_holds_none field)
      fun hBoth => hAllows hBoth.1

/- A filter within another one lets a part of it through. -/
theorem isPart_apply
    (hWithin : filter.IsWithin other)
    (update : Update) :
    (filter.apply update).IsPart (other.apply update) := by
  intro path name field hField
  rcases holds_apply_iff.mp hField with ⟨hAllows, hHolds⟩
  exact holds_apply_iff.mpr ⟨hWithin _ hAllows, hHolds⟩

/- With one more path excluded, no more is let through. -/
theorem isWithin_excluding
    (filter : Filter)
    (listed : List String) :
    (filter.excluding listed).IsWithin filter := by
  have hLists :
      ∀ start,
        filter.Lists start →
          (filter.excluding listed).Lists start := by
    rintro start (hIncluded | hExcluded)
    · exact Or.inl hIncluded
    · exact Or.inr (List.mem_append_left _ hExcluded)
  intro path hAllows
  rw [allows_iff] at hAllows ⊢
  rcases hAllows with ⟨start, hIncluded, hStart⟩ | ⟨hNil, hNone⟩
  · exact Or.inl
      ⟨start, hIncluded,
        hStart.of_listed (Or.inl hIncluded) hLists⟩
  · exact Or.inr
      ⟨hNil, fun start hListed =>
        hNone start (hLists start hListed)⟩

/-
  With one more path included, no less is let through, if
  paths were included before.
-/
theorem isWithin_including
    (hIncluded : filter.included ≠ [])
    (listed : List String) :
    filter.IsWithin (filter.including listed) := by
  intro path hAllows
  rw [allows_iff, or_iff_left fun hBoth => hIncluded hBoth.1]
    at hAllows
  rcases hAllows with ⟨start, hMem, hStart⟩
  -- The longest start is the same or the path added, and
  -- either of them is included.
  rcases (filter.including listed).exists_isLongestStart_or
    path with ⟨longest, hLongest⟩ | hNone
  · refine allows_of_included hLongest ?_
    rcases hLongest.listed with hListed | hExcluded
    · exact hListed
    · have hEq : longest = start := by
        refine IsLongestStart.unique ?_ hStart
        refine hLongest.of_listed (Or.inr hExcluded) ?_
        rintro other (hOther | hOther)
        · exact Or.inl (List.mem_append_left _ hOther)
        · exact Or.inr hOther
      rw [hEq]
      exact List.mem_append_left _ hMem
  · exact absurd hStart.isStart
      (hNone start (Or.inl (List.mem_append_left _ hMem)))

/-
  A filter with one more path to exclude lets no more
  through, and one with one more path to include no less, if
  it included any before.  So do updates keep no more of
  their fields, or no less, and always with their values.
-/
theorem isWithin_of_listing
    (filter : Filter)
    (listed : List String)
    (update : Update) :
    ((filter.excluding listed).IsWithin filter ∧
      ((filter.excluding listed).apply update).IsPart
        (filter.apply update)) ∧
    (filter.included ≠ [] →
      filter.IsWithin (filter.including listed) ∧
      (filter.apply update).IsPart
        ((filter.including listed).apply update)) := by
  have hExcluding := filter.isWithin_excluding listed
  refine ⟨⟨hExcluding, isPart_apply hExcluding update⟩, ?_⟩
  intro hIncluded
  have hIncluding := isWithin_including hIncluded listed
  exact ⟨hIncluding, isPart_apply hIncluding update⟩

/- A path within an excluded one is included, or excluded. -/
theorem isWithin_of_listing_within :
    let filter : Filter := ⟨[["a"]], [["a", "in"]]⟩
    let listed := ["a", "in", "s"]
    let update : Update :=
      { Update.empty with
        maps :=
          [("a",
            { Update.empty with
              flags := [("f", true)]
              maps :=
                [("in",
                  { Update.empty with
                    adds := [("s", [[1], [2]])] })] })] }
    filter.included ≠ [] ∧
    ((filter.excluding listed).IsWithin filter ∧
      ((filter.excluding listed).apply update).IsPart
        (filter.apply update)) ∧
    (filter.IsWithin (filter.including listed) ∧
      (filter.apply update).IsPart
        ((filter.including listed).apply update)) := by
  intro filter listed update
  have hIncluded : filter.included ≠ [] := by
    decide
  have hWithin := isWithin_of_listing filter listed update
  exact ⟨hIncluded, hWithin.1, hWithin.2 hIncluded⟩

end Filter

end CrdtDoc
