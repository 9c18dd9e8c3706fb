import KaretWorker.Effects
import KaretWorker.Library.Paging
import KaretWorker.Library.Runs

/-!
# Listing the keys of a bucket

`list_keys` of `src/s3.rs` asks for the keys under a prefix page by page, each time with the
continuation token of the page before, and stops at the page without one. Elsewhere a listing is
one step. Here objects are written and deleted between the pages.

The keys come in ascending order, each once; a key that is there throughout is among them, and
one that never is is not. If nothing changes under the prefix they are those of one listing, and
in any case the requests come to an end (`listed_between`).
-/
namespace KaretWorker

open Texts Paging

/-- A reply to a request: the keys of its objects, and the token to go on with. -/
structure ListPage (Token : Type) where
  contents : List (Option Text)
  next : Option Token

/-- Where the loop of `list_keys` stands. -/
inductive ListLoop (Token : Type) where
  | asking (token : Option Token) (keys : List Text)
  | listed (keys : List Text)
  | failed (message : Text)

/-- Take a reply to the pending request. -/
def ListLoop.receive {Token : Type} (keys : List Text) : Except Text (ListPage Token) → ListLoop Token
  | .error error => .failed ("S3 ListObjects failed: ".toList ++ error)
  | .ok page =>
    let keys := keys ++ page.contents.filterMap id
    match page.next with
    | some token => .asking (some token) keys
    | none => .listed keys

/-- A bucket while it is listed, with the keys that have been in it throughout, those that were
in it at some time, and the number of requests. -/
structure ListRun (Token : Type) where
  store : Store
  loop : ListLoop Token
  lasting : List Text
  seen : List Text
  requests : Nat

/-- A listing that begins over a store. -/
def ListRun.start {Token : Type} (store : Store) : ListRun Token :=
  ⟨store, .asking none [], store.keys, store.keys, 0⟩

/-- Others write and delete objects, and requests are answered. -/
inductive ListAction (Token : Type) where
  | put (key : Text) (body : Object)
  | delete (key : Text)
  | reply (given : Except Text (ListPage Token))

/-- Objects are put and deleted, and a page is requested. -/
def ListRun.step {Token : Type} (run : ListRun Token) : ListAction Token → Option (ListRun Token)
  | .put key body => some { run with store := run.store.insert key body, seen := key :: run.seen }
  | .delete key => some { run with
      store := run.store.erase key
      lasting := run.lasting.filter (· ≠ key) }
  | .reply given =>
    match run.loop with
    | .asking _ keys => some { run with loop := .receive keys given, requests := run.requests + 1 }
    | _ => none

/-- The keys under the prefix that have been there at some time, each once. -/
def ListRun.seenUnder {Token : Type} (run : ListRun Token) (lead : Text) : List Text :=
  (run.seen.filter (lead <+: ·)).dedup

section Listing

-- A token stands for the key up to which the pages have gone.
variable {Token : Type} (position : Token → Text) (lead : Text)

/-- The key is in the bucket and under the prefix. -/
def Store.Under (store : Store) (key : Text) : Prop := lead <+: key ∧ key ∈ store

/-- A page has keys under the prefix, beyond the token of its request and up to its own. -/
def ListRun.Served (run : ListRun Token) : ListAction Token → Prop
  | .reply (.ok page) => ∀ token keys, run.loop = .asking token keys →
      ∃ found : List Text, page.contents = found.map some ∧
        Serves (run.store.Under lead) (token.map position) found (page.next.map position)
  | _ => True

/-- What a run knows of the keys it has received. -/
structure ListRun.Sound (start : Store) (run : ListRun Token) : Prop where
  present : ∀ key ∈ run.lasting, key ∈ run.store ∧ key ∈ start
  seen : ∀ key ∈ run.store, key ∈ run.seen
  asking : ∀ token keys, run.loop = .asking token keys →
    Collected (fun key => lead <+: key ∧ key ∈ run.lasting) (fun key => lead <+: key ∧ key ∈ run.seen)
      (token.map position) keys ∧ run.requests ≤ keys.length
  listed : ∀ keys, run.loop = .listed keys →
    Complete (fun key => lead <+: key ∧ key ∈ run.lasting) (fun key => lead <+: key ∧ key ∈ run.seen) keys
  bounded : run.requests ≤ (run.seenUnder lead).length + 1

variable {position lead} {start : Store} {run after : ListRun Token}

/-- Before its first page a listing is sound. -/
theorem start_sound (start : Store) :
    (ListRun.start start : ListRun Token).Sound position lead start := by
  refine ⟨fun key member => ⟨AList.mem_keys.mpr member, AList.mem_keys.mpr member⟩,
    fun key member => AList.mem_keys.mp member, ?_, fun _ impossible => (nomatch impossible),
      Nat.zero_le _⟩
  rintro _ _ ⟨⟩
  exact ⟨collected_nil, Nat.zero_le _⟩

/-- The keys seen under the prefix, each once. -/
theorem ListRun.mem_seenUnder {key : Text} :
    key ∈ run.seenUnder lead ↔ lead <+: key ∧ key ∈ run.seen := by
  simp only [ListRun.seenUnder, List.mem_dedup, List.mem_filter, decide_eq_true_eq, and_comm]

/-- More different keys have been seen from step to step. -/
theorem ListRun.seenUnder_length_le {later : ListRun Token} (more : run.seen ⊆ later.seen) :
    (run.seenUnder lead).length ≤ (later.seenUnder lead).length := by
  refine (List.subperm_of_subset (List.nodup_dedup _) (fun key isKey => ?_)).length_le
  have isSeen := ListRun.mem_seenUnder.mp isKey
  exact ListRun.mem_seenUnder.mpr ⟨isSeen.1, more isSeen.2⟩

/-- A list of values that are all there is that list. -/
theorem filterMap_some (found : List Text) : (found.map some).filterMap id = found := by
  rw [List.filterMap_map]
  exact List.filterMap_some

/-- Fewer keys last and more are seen from step to step. -/
theorem ListRun.Sound.mono (sound : run.Sound position lead start) {store : Store}
    {lasting seen : List Text}
    (present : ∀ key ∈ lasting, key ∈ store) (isSeen : ∀ key ∈ store, key ∈ seen)
    (fewer : lasting ⊆ run.lasting) (more : run.seen ⊆ seen) :
    ListRun.Sound position lead start
      { run with store := store, lasting := lasting, seen := seen } := by
  refine ⟨fun key member => ⟨present key member, (sound.present key (fewer member)).2⟩,
    isSeen, ?_, ?_,
    sound.bounded.trans (Nat.succ_le_succ (ListRun.seenUnder_length_le more))⟩
  · intro token keys isAsking
    obtain ⟨collected, requests⟩ := sound.asking token keys isAsking
    exact ⟨collected.mono (fun key lasts => ⟨lasts.1, fewer lasts.2⟩)
      (fun key isKey => ⟨isKey.1, more isKey.2⟩), requests⟩
  · intro keys isListed
    exact (sound.listed keys isListed).mono (fun key lasts => ⟨lasts.1, fewer lasts.2⟩)
      (fun key isKey => ⟨isKey.1, more isKey.2⟩)

/-- A reply keeps what a run knows. -/
theorem ListRun.Sound.received (sound : run.Sound position lead start) {token : Option Token}
    {keys : List Text} (isAsking : run.loop = .asking token keys)
    {given : Except Text (ListPage Token)}
    (served : ∀ page, given = .ok page → ∃ found : List Text, page.contents = found.map some ∧
      Serves (run.store.Under lead) (token.map position) found (page.next.map position)) :
    ListRun.Sound position lead start
      { run with loop := .receive keys given, requests := run.requests + 1 } := by
  obtain ⟨collected, requests⟩ := sound.asking token keys isAsking
  have few : keys.length ≤ (run.seenUnder lead).length :=
    (collected.mono (fun _ lasts => lasts)
      (fun _ isKey => ListRun.mem_seenUnder.mpr isKey)).length_le
  have lasts : ∀ key, lead <+: key ∧ key ∈ run.lasting → run.store.Under lead key :=
    fun key isLasting =>
    ⟨isLasting.1, (sound.present key isLasting.2).1⟩
  have sees : ∀ key, run.store.Under lead key → lead <+: key ∧ key ∈ run.seen := fun key isUnder =>
    ⟨isUnder.1, sound.seen key isUnder.2⟩
  refine ⟨sound.present, sound.seen, ?_, ?_, Nat.succ_le_succ (requests.trans few)⟩
  · intro next found isNext
    cases given with
    | error error => exact nomatch isNext
    | ok page =>
      obtain ⟨names, contents, serves⟩ := served page rfl
      simp only [ListLoop.receive, contents, filterMap_some] at isNext
      split at isNext
      · next further isFurther =>
        obtain ⟨rfl, rfl⟩ := ListLoop.asking.inj isNext
        rw [isFurther] at serves
        refine ⟨collected.next serves lasts sees, ?_⟩
        have more := List.length_pos_of_ne_nil (serves.nonempty rfl)
        rw [List.length_append]
        show run.requests + 1 ≤ _
        omega
      · exact nomatch isNext
  · intro found isListed
    cases given with
    | error error => exact nomatch isListed
    | ok page =>
      obtain ⟨names, contents, serves⟩ := served page rfl
      simp only [ListLoop.receive, contents, filterMap_some] at isListed
      split at isListed
      · exact nomatch isListed
      · next isLast =>
        obtain rfl := ListLoop.listed.inj isListed
        rw [isLast] at serves
        exact collected.last serves lasts sees

/-- One step keeps what a run knows. -/
theorem ListRun.Sound.step (sound : run.Sound position lead start) {action : ListAction Token}
    (served : run.Served position lead action) (stepped : run.step action = some after) :
    after.Sound position lead start := by
  cases action with
  | put key body =>
    obtain rfl := Option.some.inj stepped
    refine sound.mono (fun other member => ?_) (fun other member => ?_) (List.Subset.refl _)
      (List.subset_cons_self _ _)
    · exact (AList.mem_insert _).mpr (Or.inr (sound.present other member).1)
    · rcases (AList.mem_insert _).mp member with rfl | kept
      · exact List.mem_cons_self
      · exact List.mem_cons_of_mem _ (sound.seen other kept)
  | delete key =>
    obtain rfl := Option.some.inj stepped
    refine sound.mono (fun other member => ?_) (fun other member => ?_) (List.filter_subset_self _)
      (List.Subset.refl _)
    · obtain ⟨isLasting, different⟩ := List.mem_filter.mp member
      exact AList.mem_erase.mpr ⟨of_decide_eq_true different, (sound.present other isLasting).1⟩
    · exact sound.seen other (AList.mem_erase.mp member).2
  | reply given =>
    simp only [ListRun.step] at stepped
    split at stepped
    · next token keys isAsking =>
      obtain rfl := Option.some.inj stepped
      refine sound.received isAsking (fun page isPage => ?_)
      rw [isPage] at served
      exact served token keys isAsking
    · exact nomatch stepped

/-- The keys of one listing are ascending, and are those under the prefix. -/
theorem listKeys_ascending (store : Store) (lead : Text) :
    (store.listKeys lead).Pairwise (· < ·) := by
  have sorted : (store.listKeys lead).Pairwise (· ≤ ·) := List.pairwise_insertionSort _ _
  exact (sorted.and (Store.nodup_listKeys store lead)).imp
    (fun both => lt_of_le_of_ne both.1 both.2)

/-! ## The bucket meanwhile -/

/-- The keys hold all that were under the prefix in each of these contents, and none that was in
none of them. -/
def ListedDuring (lead : Text) (during : List Store) (keys : List Text) : Prop :=
  (∀ key, lead <+: key → (∀ store ∈ during, key ∈ store) → key ∈ keys) ∧
    ∀ key ∈ keys, lead <+: key ∧ ∃ store ∈ during, key ∈ store

/-- A step, which adds what is in the bucket after it to the contents so far. -/
def ListRun.watch (watched : ListRun Token × List Store) (action : ListAction Token) :
    Option (ListRun Token × List Store) :=
  (watched.1.step action).map (fun after => (after, after.store :: watched.2))

/-- What the contents so far say of the keys that a run keeps account of. -/
structure ListRun.Witnessed (run : ListRun Token) (during : List Store) : Prop where
  lasting : ∀ key, (∀ store ∈ during, key ∈ store) → key ∈ run.lasting
  seen : ∀ key ∈ run.seen, ∃ store ∈ during, key ∈ store

/-- One step keeps the account. -/
theorem ListRun.Witnessed.step {during : List Store} (witnessed : run.Witnessed during)
    {action : ListAction Token} (stepped : run.step action = some after) :
    after.Witnessed (after.store :: during) := by
  have lasts : ∀ key, (∀ store ∈ after.store :: during, key ∈ store) → key ∈ run.lasting :=
    fun key throughout => witnessed.lasting key
      (fun store isBefore => throughout store (.tail _ isBefore))
  have sees : ∀ key ∈ run.seen, ∃ store ∈ after.store :: during, key ∈ store := by
    intro key isSeen
    obtain ⟨store, isBefore, member⟩ := witnessed.seen key isSeen
    exact ⟨store, List.mem_cons_of_mem _ isBefore, member⟩
  cases action with
  | put key body =>
    obtain rfl := Option.some.inj stepped
    refine ⟨lasts, fun other isSeen => ?_⟩
    rcases List.mem_cons.mp isSeen with rfl | before
    · exact ⟨_, List.mem_cons_self, (AList.mem_insert _).mpr (Or.inl rfl)⟩
    · exact sees other before
  | delete key =>
    obtain rfl := Option.some.inj stepped
    refine ⟨fun other throughout => List.mem_filter.mpr ⟨lasts other throughout, ?_⟩, sees⟩
    exact decide_eq_true (AList.mem_erase.mp (throughout _ List.mem_cons_self)).1
  | reply given =>
    simp only [ListRun.step] at stepped
    split at stepped
    · obtain rfl := Option.some.inj stepped
      exact ⟨lasts, sees⟩
    · exact nomatch stepped

/-- A listing that ends has listed the contents of the bucket meanwhile. -/
theorem listed_during {keys : List Text} {watched : ListRun Token × List Store}
    (reached : Runs.Reaches ListRun.watch
      (fun watched action => watched.1.Served position lead action)
      (ListRun.start start, [start]) watched) (isListed : watched.1.loop = .listed keys) :
    ListedDuring lead watched.2 keys := by
  have accounted : watched.1.Sound position lead start ∧ watched.1.Witnessed watched.2 := by
    refine reached.invariant (fun watched => watched.1.Sound position lead start ∧
      watched.1.Witnessed watched.2) ⟨start_sound start, ?_, ?_⟩ ?_
    · exact fun key throughout => AList.mem_keys.mp (throughout start List.mem_cons_self)
    · exact fun key isKey => ⟨start, List.mem_cons_self, AList.mem_keys.mpr isKey⟩
    · rintro before action after ⟨sound, witnessed⟩ served stepped
      obtain ⟨run, isRun, rfl⟩ := Option.map_eq_some_iff.mp stepped
      exact ⟨sound.step served isRun, witnessed.step isRun⟩
  obtain ⟨sound, witnessed⟩ := accounted
  have complete := sound.listed keys isListed
  refine ⟨fun key under throughout => complete.holds key ⟨under, witnessed.lasting key throughout⟩,
    fun key isKey => ?_⟩
  obtain ⟨under, isSeen⟩ := complete.among key isKey
  exact ⟨under, witnessed.seen key isSeen⟩

/-- A listing that ends has the keys that were under the prefix throughout and no key that never
was, in order; without changes there it is one listing of the bucket. So it lists the contents of
the bucket meanwhile. The requests are bounded by the different keys that were under the prefix at
some time. -/
theorem listed_between (start : Store) (run : ListRun Token)
    (reached : Runs.Reaches ListRun.step (ListRun.Served position lead) (ListRun.start start) run) :
    (∀ keys, run.loop = .listed keys →
      keys.Pairwise (· < ·) ∧ (∀ key ∈ run.lasting, lead <+: key → key ∈ keys) ∧
        (∀ key ∈ keys, lead <+: key ∧ key ∈ run.seen) ∧
        ((∀ key ∈ start, lead <+: key → key ∈ run.lasting) →
          (∀ key ∈ run.seen, lead <+: key → key ∈ start) → keys = start.listKeys lead)) ∧
      (∀ during keys, run.loop = .listed keys →
        Runs.Reaches ListRun.watch (fun watched action => watched.1.Served position lead action)
          (ListRun.start start, [start]) (run, during) → ListedDuring lead during keys) ∧
      run.requests ≤ (run.seenUnder lead).length + 1 := by
  have sound : run.Sound position lead start :=
    reached.invariant (ListRun.Sound position lead start) (start_sound start)
      (fun _ _ _ sound served stepped => sound.step served stepped)
  refine ⟨fun keys isListed => ?_,
    fun during keys isListed watched => listed_during watched isListed,
    sound.bounded⟩
  have complete := sound.listed keys isListed
  refine ⟨complete.ascending, fun key isLasting under => complete.holds key ⟨under, isLasting⟩,
    complete.among, fun lasts appears => ?_⟩
  refine complete.unique (fun key isSeen => ?_) (listKeys_ascending start lead) (fun key => ?_)
  · exact ⟨isSeen.1, lasts key (appears key isSeen.2 isSeen.1) isSeen.1⟩
  · rw [Store.mem_listKeys, AList.lookup_isSome]
    exact and_congr_right (fun under =>
      ⟨fun isKey => lasts key isKey under, fun isLasting => (sound.present key isLasting).2⟩)

end Listing

/-! ## Two pages -/

/-- The part of one listing beyond a key and up to another. -/
def Store.page (store : Store) (lead : Text) (after bound : Option Text) : List Text :=
  (store.listKeys lead).filter (fun key => after.all (· < key) && bound.all (key ≤ ·))

/-- Parts of listings are served. -/
theorem serves_page {store : Store} {lead : Text} {after bound : Option Text}
    (nonempty : bound.isSome = true → store.page lead after bound ≠ []) :
    Serves (store.Under lead) after (store.page lead after bound) bound := by
  refine ⟨(listKeys_ascending store lead).filter _, fun key => ?_, nonempty⟩
  simp only [Store.page, List.mem_filter, Store.mem_listKeys, AList.lookup_isSome, Bool.and_eq_true,
    Store.Under]
  refine and_congr_right (fun _ => and_congr ?_ ?_)
  · cases after <;> simp [Beyond]
  · cases bound <;> simp [Within]

/-- A bucket with one object, and what it has after each page. -/
def firstObject : Store := AList.singleton "p/b".toList (.data [])

/-- The object of the first page. -/
def beforePages : Store := firstObject.insert "p/a".toList (.data [])

/-- An object that comes after the first page. -/
def withLater : Store := beforePages.insert "p/c".toList (.data [])

/-- The same object, written once more. -/
def writtenTwice : Store := withLater.insert "p/c".toList (.data [])

/-- An object outside the prefix. -/
def betweenPages : Store := writtenTwice.insert "q/a".toList (.data [])

/-- What is in the bucket up to the second page. -/
def pagesDuring : List Store := [betweenPages, writtenTwice, withLater, beforePages, beforePages, firstObject]

/-- The listing of the bucket, with what has been seen of it and the requests so far. -/
def pagesRun (store : Store) (loop : ListLoop Text) (seen : List Text) (requests : Nat) : ListRun Text :=
  ⟨store, loop, firstObject.keys, seen, requests⟩

/-- The listing with the contents of the bucket so far is reached. -/
def PagesReach (run : ListRun Text) (during : List Store) : Prop :=
  Runs.Reaches ListRun.watch (fun watched => watched.1.Served id "p/".toList)
    (ListRun.start firstObject, [firstObject]) (run, during)

/-- An object that is written between the pages is on the second one, and what is written twice or
elsewhere adds no request. -/
theorem listed_between_pages : ∃ (run : ListRun Text) (during : List Store),
    run.loop = .listed ["p/a".toList, "p/b".toList, "p/c".toList] ∧
      ["p/a".toList, "p/b".toList, "p/c".toList].Pairwise (· < ·) ∧
      ListedDuring "p/".toList during ["p/a".toList, "p/b".toList, "p/c".toList] ∧
      run.seen.length = 5 ∧ run.requests ≤ 3 + 1 := by
  have written : PagesReach (pagesRun beforePages (.asking none []) ["p/a".toList, "p/b".toList] 0)
      [beforePages, firstObject] :=
    .tail .refl ⟨.put "p/a".toList (.data []), trivial, rfl⟩
  have first : PagesReach (pagesRun beforePages (.asking (some "p/a".toList) ["p/a".toList])
      ["p/a".toList, "p/b".toList] 1) [beforePages, beforePages, firstObject] := by
    refine .tail written ⟨.reply (.ok ⟨[some "p/a".toList], some "p/a".toList⟩), ?_, rfl⟩
    rintro _ _ ⟨⟩
    have page : ["p/a".toList] = beforePages.page "p/".toList none
      (some "p/a".toList) := by decide +kernel
    refine ⟨["p/a".toList], rfl, ?_⟩
    rw [page]
    exact serves_page (fun _ => by decide +kernel)
  have changed : PagesReach (pagesRun withLater (.asking (some "p/a".toList) ["p/a".toList])
      ["p/c".toList, "p/a".toList, "p/b".toList] 1)
        [withLater, beforePages, beforePages, firstObject] :=
    .tail first ⟨.put "p/c".toList (.data []), trivial, rfl⟩
  have again : PagesReach (pagesRun writtenTwice (.asking (some "p/a".toList) ["p/a".toList])
      ["p/c".toList, "p/c".toList, "p/a".toList, "p/b".toList] 1)
      [writtenTwice, withLater, beforePages, beforePages, firstObject] :=
    .tail changed ⟨.put "p/c".toList (.data []), trivial, rfl⟩
  have elsewhere : PagesReach (pagesRun betweenPages (.asking (some "p/a".toList) ["p/a".toList])
      ["q/a".toList, "p/c".toList, "p/c".toList, "p/a".toList, "p/b".toList] 1) pagesDuring :=
    .tail again ⟨.put "q/a".toList (.data []), trivial, rfl⟩
  have second :
    PagesReach (pagesRun betweenPages (.listed ["p/a".toList, "p/b".toList, "p/c".toList])
      ["q/a".toList, "p/c".toList, "p/c".toList, "p/a".toList, "p/b".toList] 2)
        (betweenPages :: pagesDuring) := by
    refine .tail elsewhere ⟨.reply (.ok ⟨[some "p/b".toList, some "p/c".toList], none⟩), ?_, rfl⟩
    rintro _ _ ⟨⟩
    have page : ["p/b".toList, "p/c".toList] = betweenPages.page "p/".toList (some "p/a".toList)
      none := by
      decide +kernel
    refine ⟨["p/b".toList, "p/c".toList], rfl, ?_⟩
    show Serves _ (some "p/a".toList) _ none
    rw [page]
    exact serves_page (fun impossible => nomatch impossible)
  have unwatched := Runs.Reaches.projected Prod.fst (fun _ action _ served stepped => by
    obtain ⟨after, isStep, rfl⟩ := Option.map_eq_some_iff.mp stepped
    exact Or.inr ⟨action, served, isStep⟩) second
  obtain ⟨listed, during, bounded⟩ := listed_between firstObject _ unwatched
  exact ⟨_, _, rfl, (listed _ rfl).1, during _ _ rfl second, rfl,
    bounded.trans (Nat.succ_le_succ (by decide +kernel))⟩

end KaretWorker
