import Mathlib.Data.List.Forall2

/-!
Outcomes that may fail. A computation made of steps gives a value exactly if every step gives one,
so a success can be taken apart into the successes of its steps, and put together from them.
-/

namespace BeaconBranch.Outcome

variable {ε α β : Type}

theorem bind_eq_ok_iff {x : Except ε α} {f : α → Except ε β} {b : β} :
    (x >>= f) = .ok b ↔ ∃ a, x = .ok a ∧ f a = .ok b := by
  cases x with
  | error e => simp [bind, Except.bind]
  | ok a => simp [bind, Except.bind]

theorem ok_bind (a : α) (f : α → Except ε β) : (Except.ok a >>= f) = f a := rfl

theorem error_bind (e : ε) (f : α → Except ε β) : (Except.error e >>= f) = .error e := rfl

theorem map_eq_ok_iff {x : Except ε α} {f : α → β} {b : β} :
    x.map f = .ok b ↔ ∃ a, x = .ok a ∧ f a = b := by
  cases x with
  | error e => simp [Except.map]
  | ok a => simp [Except.map]

theorem pure_eq_ok_iff {a b : α} : (pure a : Except ε α) = .ok b ↔ a = b := by
  simp [pure, Except.pure]

/-- A list is mapped exactly if each of its items is. -/
theorem mapM_eq_ok_iff {f : α → Except ε β} {xs : List α} {ys : List β} :
    xs.mapM f = .ok ys ↔ List.Forall₂ (fun x y => f x = .ok y) xs ys := by
  induction xs generalizing ys with
  | nil =>
    rw [List.mapM_nil, pure_eq_ok_iff]
    constructor
    · rintro rfl
      exact .nil
    · rintro ⟨⟩
      rfl
  | cons x xs ih =>
    simp only [List.mapM_cons, bind_eq_ok_iff, pure_eq_ok_iff]
    constructor
    · rintro ⟨y, first, rest, others, rfl⟩
      exact .cons first (ih.mp others)
    · rintro (_ | ⟨first, others⟩)
      exact ⟨_, first, _, ih.mpr others, rfl⟩

/-- What holds of two lists side by side holds at each position. -/
theorem forall₂_getElem? {R : α → β → Prop} {xs : List α} {ys : List β}
    (each : List.Forall₂ R xs ys) {i : Nat} {x : α} {y : β} (foundX : xs[i]? = some x)
    (foundY : ys[i]? = some y) : R x y := by
  obtain ⟨ltX, rfl⟩ := List.getElem?_eq_some_iff.mp foundX
  obtain ⟨ltY, rfl⟩ := List.getElem?_eq_some_iff.mp foundY
  exact each.get ltX ltY

/-- Items that are mapped exactly under a condition make a list that is mapped exactly if all of
them meet it. -/
theorem mapM_eq_ok_iff_map {f : α → Except ε β} {p : α → Prop} {g : α → β} {xs : List α}
    {ys : List β} (each : ∀ x ∈ xs, ∀ y, f x = .ok y ↔ p x ∧ y = g x) :
    xs.mapM f = .ok ys ↔ (∀ x ∈ xs, p x) ∧ ys = xs.map g := by
  rw [mapM_eq_ok_iff]
  induction xs generalizing ys with
  | nil => simp
  | cons x xs ih =>
    have first := each x List.mem_cons_self
    have others := @ih ys.tail fun y mem => each y (List.mem_cons_of_mem _ mem)
    rw [List.forall₂_cons_left_iff, List.forall_mem_cons, List.map_cons]
    constructor
    · rintro ⟨y, rest, ok, restOk, rfl⟩
      obtain ⟨meets, rfl⟩ := (first y).mp ok
      obtain ⟨all, same⟩ := others.mp restOk
      exact ⟨⟨meets, all⟩, congrArg _ same⟩
    · rintro ⟨⟨meets, all⟩, rfl⟩
      exact ⟨_, _, (first _).mpr ⟨meets, rfl⟩, others.mpr ⟨all, rfl⟩, rfl⟩

/-- The same beside another list, whose items tell the condition and the result. -/
theorem mapM_eq_ok_iff_zipWith {γ : Type} {f : α → Except ε γ} {p : α → β → Prop}
    {g : α → β → γ} {xs : List α} {ys : List β} {zs : List γ}
    (each : List.Forall₂ (fun x y => ∀ z, f x = .ok z ↔ p x y ∧ z = g x y) xs ys) :
    xs.mapM f = .ok zs ↔ List.Forall₂ p xs ys ∧ zs = List.zipWith g xs ys := by
  induction each generalizing zs with
  | nil =>
    rw [List.mapM_nil, pure_eq_ok_iff]
    simp [eq_comm]
  | @cons x y xs ys first _ ih =>
    simp only [List.mapM_cons, bind_eq_ok_iff, pure_eq_ok_iff, List.forall₂_cons,
      List.zipWith_cons_cons]
    constructor
    · rintro ⟨z, ok, rest, restOk, rfl⟩
      obtain ⟨meets, rfl⟩ := (first z).mp ok
      obtain ⟨all, rfl⟩ := ih.mp restOk
      exact ⟨⟨meets, all⟩, rfl⟩
    · rintro ⟨⟨meets, all⟩, rfl⟩
      exact ⟨_, (first _).mpr ⟨meets, rfl⟩, _, ih.mpr ⟨all, rfl⟩, rfl⟩

/-- What holds at each position holds of two lists of one length side by side. -/
theorem forall₂_of_getElem? {R : α → β → Prop} {xs : List α} {ys : List β}
    (length : xs.length = ys.length)
    (each : ∀ (i : Nat) (x : α) (y : β), xs[i]? = some x → ys[i]? = some y → R x y) :
    List.Forall₂ R xs ys := by
  rw [List.forall₂_iff_get]
  exact ⟨length, fun i ltX ltY =>
    each i _ _ (List.getElem?_eq_getElem ltX) (List.getElem?_eq_getElem ltY)⟩

/-- Mapping a list twice gives what mapping it once with both steps gives. -/
theorem mapM_bind_mapM_eq_ok_iff {γ : Type} {f : α → Except ε β} {g : β → Except ε γ} {xs : List α}
    {zs : List γ} : (xs.mapM f >>= fun ys => ys.mapM g) = .ok zs ↔
      xs.mapM (fun x => f x >>= g) = .ok zs := by
  induction xs generalizing zs with
  | nil => simp
  | cons x xs ih =>
    simp only [List.mapM_cons, bind_eq_ok_iff, pure_eq_ok_iff] at ih ⊢
    constructor
    · rintro ⟨_, ⟨y, first, ys, others, rfl⟩, both⟩
      simp only [List.mapM_cons, bind_eq_ok_iff, pure_eq_ok_iff] at both
      obtain ⟨z, firstAgain, rest, othersAgain, rfl⟩ := both
      exact ⟨z, ⟨y, first, firstAgain⟩, rest, ih.mp ⟨ys, others, othersAgain⟩, rfl⟩
    · rintro ⟨z, ⟨y, first, firstAgain⟩, rest, others, rfl⟩
      obtain ⟨ys, mapped, othersAgain⟩ := ih.mpr others
      refine ⟨y :: ys, ⟨y, first, ys, mapped, rfl⟩, ?_⟩
      simp only [List.mapM_cons, bind_eq_ok_iff, pure_eq_ok_iff]
      exact ⟨z, firstAgain, rest, othersAgain, rfl⟩

theorem mapM_congr {f g : α → Except ε β} {xs : List α} (same : ∀ x ∈ xs, f x = g x) :
    xs.mapM f = xs.mapM g := by
  induction xs with
  | nil => rfl
  | cons x xs ih =>
    rw [List.mapM_cons, List.mapM_cons, same x List.mem_cons_self,
      ih fun y mem => same y (List.mem_cons_of_mem _ mem)]

/-- The result for an item stands where the item stands. -/
theorem getElem?_of_mapM {f : α → Except ε β} {xs : List α} {ys : List β}
    (ok : xs.mapM f = .ok ys) {i : Nat} {x : α} (found : xs[i]? = some x) :
    ∃ y, ys[i]? = some y ∧ f x = .ok y := by
  have each := mapM_eq_ok_iff.mp ok
  have lt : i < ys.length := each.length_eq ▸ (List.getElem?_eq_some_iff.mp found).1
  have result := List.getElem?_eq_getElem lt
  exact ⟨ys[i], result, forall₂_getElem? each found result⟩

/-- A mapped list has a result for each of its items. -/
theorem exists_of_mapM {f : α → Except ε β} {xs : List α} {ys : List β}
    (ok : xs.mapM f = .ok ys) {x : α} (mem : x ∈ xs) : ∃ y, f x = .ok y := by
  obtain ⟨i, found⟩ := List.getElem?_of_mem mem
  obtain ⟨y, -, result⟩ := getElem?_of_mapM ok found
  exact ⟨y, result⟩

/-- Each result of a mapped list is the one of an item. -/
theorem exists_of_mem_mapM {f : α → Except ε β} {xs : List α} {ys : List β}
    (ok : xs.mapM f = .ok ys) {y : β} (mem : y ∈ ys) : ∃ x ∈ xs, f x = .ok y := by
  induction mapM_eq_ok_iff.mp ok with
  | nil => cases mem
  | @cons x _ xs _ first others ih =>
    rcases List.mem_cons.mp mem with rfl | later
    · exact ⟨x, List.mem_cons_self, first⟩
    · obtain ⟨x', inXs, result⟩ := ih (mapM_eq_ok_iff.mpr others) later
      exact ⟨x', List.mem_cons_of_mem _ inXs, result⟩

theorem mapM_toList_eq_ok_iff {f : α → Except ε β} {xs : Array α} {ys : Array β} :
    xs.mapM f = .ok ys ↔ xs.toList.mapM f = .ok ys.toList := by
  rw [Array.mapM_eq_mapM_toList]
  cases xs.toList.mapM f with
  | error e => simp [Functor.map, Except.map]
  | ok zs => exact ⟨fun h => by cases h; rfl, fun h => by cases h; rfl⟩

/-- A check of a list passes exactly if it passes for each item. -/
theorem forM_eq_ok_iff {f : α → Except ε Unit} {xs : List α} :
    xs.forM f = .ok () ↔ ∀ x ∈ xs, f x = .ok () := by
  induction xs with
  | nil => simp [pure, Except.pure]
  | cons x xs ih =>
    have step : (x :: xs).forM f = f x >>= fun _ => xs.forM f := rfl
    rw [step, bind_eq_ok_iff, List.forall_mem_cons, ← ih]
    constructor
    · rintro ⟨_, first, others⟩
      exact ⟨first, others⟩
    · rintro ⟨first, others⟩
      exact ⟨(), first, others⟩

/-- A list is mapped to something exactly if each of its items is. -/
theorem exists_mapM_eq_ok_iff {f : α → Except ε β} {xs : List α} :
    (∃ ys, xs.mapM f = .ok ys) ↔ ∀ x ∈ xs, ∃ y, f x = .ok y := by
  constructor
  · rintro ⟨ys, ok⟩ x mem
    exact exists_of_mapM ok mem
  · intro each
    induction xs with
    | nil => exact ⟨[], rfl⟩
    | cons x xs ih =>
      obtain ⟨first, others⟩ := List.forall_mem_cons.mp each
      obtain ⟨y, ok⟩ := first
      obtain ⟨ys, rest⟩ := ih others
      exact ⟨y :: ys, by rw [List.mapM_cons, ok, rest]; rfl⟩

/-! ### Failures -/

theorem exists_error_iff {x : Except ε α} : (∃ e, x = .error e) ↔ ¬∃ a, x = .ok a := by
  cases x with
  | error e => simp
  | ok a => simp

/-- A list is not mapped exactly if one of its items is not. -/
theorem exists_mapM_eq_error_iff {f : α → Except ε β} {xs : List α} :
    (∃ e, xs.mapM f = .error e) ↔ ∃ x ∈ xs, ∃ e, f x = .error e := by
  rw [exists_error_iff, exists_mapM_eq_ok_iff, not_forall]
  refine exists_congr fun x => ?_
  rw [Classical.not_imp, exists_error_iff]

/-- A mapped list fails as the first of its items that fails. -/
theorem mapM_eq_error_iff {f : α → Except ε β} {xs : List α} {e : ε} :
    xs.mapM f = .error e ↔ ∃ before x after, xs = before ++ x :: after ∧
      (∀ y ∈ before, ∃ z, f y = .ok z) ∧ f x = .error e := by
  constructor
  · intro fails
    induction xs with
    | nil => cases fails
    | cons x xs ih =>
      rw [List.mapM_cons] at fails
      cases first : f x with
      | error e' =>
        rw [first] at fails
        cases fails
        exact ⟨[], x, xs, rfl, List.forall_mem_nil _, first⟩
      | ok z =>
        have later : xs.mapM f = .error e := by
          cases rest : xs.mapM f with
          | error e' => rw [first, rest] at fails; cases fails; rfl
          | ok zs => rw [first, rest] at fails; cases fails
        obtain ⟨before, y, after, rfl, oks, error⟩ := ih later
        exact ⟨x :: before, y, after, rfl, List.forall_mem_cons.mpr ⟨⟨z, first⟩, oks⟩, error⟩
  · rintro ⟨before, x, after, rfl, oks, error⟩
    obtain ⟨zs, mapped⟩ := exists_mapM_eq_ok_iff.mpr oks
    rw [List.mapM_append, mapped, List.mapM_cons, error]
    rfl

/-- Items that fail for a reason that is told apart from them make a list that fails for the first
reason. -/
theorem mapM_eq_error_iff_findSome? {f : α → Except ε β} {reason? : α → Option ε} {xs : List α}
    (each : ∀ x ∈ xs, ∀ e, f x = .error e ↔ reason? x = some e) {e : ε} :
    xs.mapM f = .error e ↔ xs.findSome? reason? = some e := by
  have sound : ∀ x ∈ xs, (∃ y, f x = .ok y) ↔ reason? x = none := by
    intro x mem
    have fails := each x mem
    cases result : f x <;> cases reason : reason? x <;> simp_all
  rw [mapM_eq_error_iff, List.findSome?_eq_some_iff]
  constructor
  · rintro ⟨before, x, after, rfl, oks, error⟩
    exact ⟨before, x, after, rfl,
      (each x (List.mem_append_right _ List.mem_cons_self) e).mp error,
      fun y mem => (sound y (List.mem_append_left _ mem)).mp (oks y mem)⟩
  · rintro ⟨before, x, after, rfl, reason, none⟩
    exact ⟨before, x, after, rfl,
      fun y mem => (sound y (List.mem_append_left _ mem)).mpr (none y mem),
      (each x (List.mem_append_right _ List.mem_cons_self) e).mpr reason⟩

/-- A computation fails with errors of one class only. -/
def FailsOnly (p : ε → Prop) (x : Except ε α) : Prop := ∀ e, x = .error e → p e

namespace FailsOnly

variable {p : ε → Prop} {x : Except ε α}

theorem ok (a : α) : FailsOnly p (.ok a : Except ε α) := nofun

theorem error {e : ε} (holds : p e) : FailsOnly p (.error e : Except ε α) := by
  rintro _ ⟨⟩
  exact holds

theorem bind {f : α → Except ε β} (first : FailsOnly p x)
    (next : ∀ a, x = .ok a → FailsOnly p (f a)) : FailsOnly p (x >>= f) := by
  cases x with
  | error e => exact error (first e rfl)
  | ok a => exact next a rfl

theorem map {f : α → β} (first : FailsOnly p x) : FailsOnly p (x.map f) := by
  cases x with
  | error e => exact error (first e rfl)
  | ok a => exact ok (f a)

theorem mapM {f : α → Except ε β} {xs : List α} (each : ∀ x ∈ xs, FailsOnly p (f x)) :
    FailsOnly p (xs.mapM f) := by
  induction xs with
  | nil => exact ok []
  | cons x xs ih =>
    obtain ⟨first, others⟩ := List.forall_mem_cons.mp each
    rw [List.mapM_cons]
    exact first.bind fun y _ => (ih others).bind fun ys _ => ok (y :: ys)

/-- A computation gives a value or fails in its way. -/
theorem eq_ok_or (only : FailsOnly p x) : (∃ a, x = .ok a) ∨ ∃ e, x = .error e ∧ p e := by
  cases x with
  | error e => exact .inr ⟨e, rfl, only e rfl⟩
  | ok a => exact .inl ⟨a, rfl⟩

end FailsOnly

end BeaconBranch.Outcome
