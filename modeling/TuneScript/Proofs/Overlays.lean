import TuneScript.Proofs.Settings
import TuneScript.Signal.Envelope

/-!
Curves laid over each other. A write into a stretch of a list is described by its room and by the
values it leaves. From that come both layouts of an envelope: the one whose stages have to fit
into the note, with the lengths for which they do, and the one that leaves out what does not fit,
with the value at every sample.
-/

namespace TuneScript

namespace Slice

variable {α : Type} {xs ys source middle : List α} {start stop : Int} {k m : Nat}

theorem position_le (n : Nat) (bound : Int) : position n bound ≤ n := by
  unfold position
  split <;> omega

theorem length_fitted (h : fitted k source = .ok middle) : middle.length = k := by
  unfold fitted at h
  split at h
  · next hk =>
    cases h
    exact hk
  · split at h
    · cases h
      exact List.length_replicate
    · cases h

/-- A list keeps its length whatever is written into it. -/
theorem length_assign (h : assign xs start stop source = .ok ys) : ys.length = xs.length := by
  obtain ⟨middle, hmiddle, h⟩ := Result.bind_eq_ok.1 h
  cases h
  have hlength := length_fitted hmiddle
  have hfirst := position_le xs.length start
  have hlast := position_le xs.length stop
  rw [List.length_append, List.length_append, List.length_take, List.length_drop, hlength]
  omega

/-- A source of `k` values fits a stretch if it has one for each place, or one for all. -/
def Fits (n : Nat) (start stop : Int) (k : Nat) : Prop :=
  k = (bounds n start stop).2 - (bounds n start stop).1 ∨ k = 1

theorem assign_ok (h : Fits xs.length start stop source.length) :
    ∃ ys, assign xs start stop source = .ok ys := by
  obtain ⟨middle, hmiddle⟩ : ∃ middle, fitted ((bounds xs.length start stop).2 -
      (bounds xs.length start stop).1) source = .ok middle := by
    unfold fitted
    split
    · exact ⟨_, rfl⟩
    · next hne =>
      obtain ⟨x, rfl⟩ := List.length_eq_one_iff.1 (h.resolve_left hne)
      exact ⟨_, rfl⟩
  exact ⟨_, Result.bind_eq_ok.2 ⟨middle, hmiddle, rfl⟩⟩

theorem assign_error (h : ¬Fits xs.length start stop source.length) :
    ∃ target, assign xs start stop source = .error (.shapeMismatch [source.length] target) := by
  obtain ⟨hplaces, hone⟩ := not_or.1 h
  refine ⟨(bounds xs.length start stop).2 - (bounds xs.length start stop).1, ?_⟩
  unfold assign fitted
  dsimp only
  rw [if_neg hplaces]
  split
  · exact absurd rfl hone
  · rfl

theorem fits_first (n k : Nat) : Fits n 0 k k ↔ k ≤ n ∨ k = 1 := by
  unfold Fits bounds position
  dsimp only
  split <;> split <;> omega

theorem fits_next (n j k : Nat) : Fits n j (j + k) k ↔ k ≤ 1 ∨ j + k ≤ n := by
  unfold Fits bounds position
  dsimp only
  split <;> split <;> omega

/-- A stretch at the end that is longer than the list would start before it. Its start is then
counted from the end, and from there on are fewer places than the stretch needs. -/
theorem fits_last (n k : Nat) : Fits n (n - k) n k ↔ k ≤ n ∨ k = 1 := by
  unfold Fits bounds position
  dsimp only
  split <;> split <;> omega

theorem fitted_single (k : Nat) (x : α) : fitted k [x] = .ok (List.replicate k x) := by
  unfold fitted
  split
  · next h =>
    rw [← h]
    rfl
  · rfl

/-- Inside a list a stretch receives its values and nothing else changes. -/
theorem getElem?_assign (hk : start = k) (hm : stop = m) (hkm : k ≤ m) (hinside : m ≤ xs.length)
    (hmiddle : fitted (m - k) source = .ok middle) :
    ∃ ys, assign xs start stop source = .ok ys ∧
      ∀ i, ys[i]? = if k ≤ i ∧ i < m then middle[i - k]? else xs[i]? := by
  have hbounds : bounds xs.length start stop = (k, m) := by
    unfold bounds position
    rw [if_neg (by omega), if_neg (by omega)]
    dsimp only
    congr 1 <;> omega
  have hlength := length_fitted hmiddle
  refine ⟨xs.take k ++ middle ++ xs.drop m, ?_, fun i => ?_⟩
  · rw [assign, hbounds]
    exact Result.bind_eq_ok.2 ⟨middle, hmiddle, rfl⟩
  · have htake : (xs.take k).length = k := by
      rw [List.length_take]
      omega
    rw [List.append_assoc, List.getElem?_append, List.getElem?_append, htake, hlength]
    split
    · next hi => rw [if_neg (by omega), List.getElem?_take_of_lt hi]
    · split
      · rw [if_pos (by omega)]
      · rw [if_neg (by omega), List.getElem?_drop]
        congr 1
        omega

end Slice

namespace Stages

variable {α : Type} {stages : Stages α} {points start stop : Int} {xs ys source middle : List α}
  {curve : Nat → Result (List α)}

theorem length_lay (h : lay points curve start stop xs = .ok ys) : ys.length = xs.length := by
  unfold lay at h
  split at h
  · obtain ⟨source, -, h⟩ := Result.bind_eq_ok.1 h
    exact Slice.length_assign h
  · cases h
    rfl

section Fitting

variable {n k : Nat} (hcurve : curve points.toNat = .ok source) (hlength : source.length = k)
  (hxs : xs.length = n)

include hcurve hlength hxs

theorem lay_ok (hfits : Slice.Fits n start stop k) :
    ∃ ys, lay points curve start stop xs = .ok ys ∧ ys.length = n := by
  rw [← hlength, ← hxs] at hfits
  by_cases hpoints : 0 < points
  · obtain ⟨ys, hys⟩ := Slice.assign_ok hfits
    refine ⟨ys, ?_, (Slice.length_assign hys).trans hxs⟩
    rw [lay, if_pos hpoints, hcurve]
    exact hys
  · exact ⟨xs, if_neg hpoints, hxs⟩

theorem lay_error (hpoints : 0 < points) (hfits : ¬Slice.Fits n start stop k) :
    ∃ target, lay points curve start stop xs = .error (.shapeMismatch [k] target) := by
  rw [← hlength, ← hxs] at hfits
  obtain ⟨target, htarget⟩ := Slice.assign_error hfits
  refine ⟨target, ?_⟩
  rw [lay, if_pos hpoints, hcurve, ← hlength]
  exact htarget

end Fitting

theorem getElem?_lay {k : Nat} (hcurve : curve points.toNat = .ok source)
    (hmiddle : Slice.fitted points.toNat source = .ok middle) (hstart : start = k)
    (hstop : stop = start + points) (hinside : k + points.toNat ≤ xs.length) :
    ∃ ys, lay points curve start stop xs = .ok ys ∧ ys.length = xs.length ∧
      ∀ i, ys[i]? = if k ≤ i ∧ i < k + points.toNat then middle[i - k]? else xs[i]? := by
  by_cases hpoints : 0 < points
  · have hend : stop = (k + points.toNat : Nat) := by omega
    obtain ⟨ys, hys, hvalues⟩ := Slice.getElem?_assign hstart hend (by omega) hinside
      (by rwa [Nat.add_sub_cancel_left])
    refine ⟨ys, ?_, Slice.length_assign hys, hvalues⟩
    rw [lay, if_pos hpoints, hcurve]
    exact hys
  · refine ⟨xs, if_neg hpoints, rfl, fun i => ?_⟩
    rw [if_neg (by omega)]

/-- Curves that have as many points as they are asked for, around one level. -/
structure Full (stages : Stages α) : Prop where
  attack : ∀ k, (stages.attack k).length = k
  decay : ∀ k, ∃ xs, stages.decay k = .ok xs ∧ xs.length = k
  sustain : ∃ x, stages.sustain = .ok [x]
  release : ∀ k, ∃ xs, stages.release k = .ok xs ∧ xs.length = k

/-- The stages of a note, one laid after the other. -/
theorem layout_eq (n : Nat) (a d r : Int) :
    stages.layout n a d r = (do
      let attacked ← lay a (fun k => .ok (stages.attack k)) 0 a (List.replicate n stages.peak)
      let decayed ← lay d stages.decay a (a + d) attacked
      let sustained ← lay (n - a - d - r) (fun _ => stages.sustain) (a + d)
        (a + d + (n - a - d - r)) decayed
      lay r stages.release (n - r) n sustained) := by
  rw [layout, if_neg (by omega)]
  rfl

theorem length_layout {n : Nat} {a d r : Int} (h : stages.layout n a d r = .ok xs) :
    xs.length = n := by
  rw [layout_eq] at h
  obtain ⟨attacked, hattack, h⟩ := Result.bind_eq_ok.1 h
  obtain ⟨decayed, hdecay, h⟩ := Result.bind_eq_ok.1 h
  obtain ⟨sustained, hsustain, hrelease⟩ := Result.bind_eq_ok.1 h
  rw [length_lay hrelease, length_lay hsustain, length_lay hdecay, length_lay hattack]
  exact List.length_replicate

namespace Full

variable {n a d r : Nat} (h : stages.Full)

include h

theorem attack_ok (ha : a ≤ n ∨ a = 1) :
    ∃ ys, lay a (fun k => .ok (stages.attack k)) 0 a (List.replicate n stages.peak) =
      .ok ys ∧ ys.length = n :=
  lay_ok rfl (h.attack a) List.length_replicate ((Slice.fits_first n a).2 ha)

theorem decay_ok (hd : d ≤ 1 ∨ a + d ≤ n) {xs : List α} (hxs : xs.length = n) :
    ∃ ys, lay d stages.decay a (a + d) xs = .ok ys ∧ ys.length = n := by
  obtain ⟨source, hsource, hlength⟩ := h.decay d
  exact lay_ok hsource hlength hxs ((Slice.fits_next n a d).2 hd)

theorem sustain_ok (points start stop : Int) {xs : List α} (hxs : xs.length = n) :
    ∃ ys, lay points (fun _ => stages.sustain) start stop xs = .ok ys ∧ ys.length = n := by
  obtain ⟨level, hlevel⟩ := h.sustain
  exact lay_ok hlevel rfl hxs (.inr rfl)

/-- Attack, decay and sustain leave the release to be laid. -/
theorem layout_eq_lay (ha : a ≤ n ∨ a = 1) (hd : d ≤ 1 ∨ a + d ≤ n) :
    ∃ sustained, sustained.length = n ∧
      stages.layout n a d r = lay r stages.release (n - r) n sustained := by
  obtain ⟨attacked, hattack, hattacked⟩ := h.attack_ok ha
  obtain ⟨decayed, hdecay, hdecayed⟩ := h.decay_ok hd hattacked
  obtain ⟨sustained, hsustain, hsustained⟩ :=
    h.sustain_ok (n - a - d - r) (a + d) (a + d + (n - a - d - r)) hdecayed
  refine ⟨sustained, hsustained, ?_⟩
  rw [layout_eq, Result.bind_of_ok hattack, Result.bind_of_ok hdecay, Result.bind_of_ok hsustain]

theorem layout_ok (ha : a ≤ n ∨ a = 1) (hd : d ≤ 1 ∨ a + d ≤ n) (hr : r ≤ n ∨ r = 1) :
    ∃ xs, stages.layout n a d r = .ok xs := by
  obtain ⟨sustained, hlength, hlayout⟩ := h.layout_eq_lay (r := r) ha hd
  obtain ⟨source, hsource, hpoints⟩ := h.release r
  obtain ⟨xs, hxs, -⟩ : ∃ ys, lay r stages.release (n - r) n sustained = .ok ys ∧ ys.length = n :=
    lay_ok hsource hpoints hlength ((Slice.fits_last n r).2 hr)
  exact ⟨xs, hlayout.trans hxs⟩

/-- The first curve that has no room is refused. -/
theorem layout_error (hfits : ¬((a ≤ n ∨ a = 1) ∧ (d ≤ 1 ∨ a + d ≤ n) ∧ (r ≤ n ∨ r = 1))) :
    ∃ k target, stages.layout n a d r = .error (.shapeMismatch [k] target) := by
  by_cases ha : a ≤ n ∨ a = 1
  · by_cases hd : d ≤ 1 ∨ a + d ≤ n
    · have hr : ¬(r ≤ n ∨ r = 1) := fun hr => hfits ⟨ha, hd, hr⟩
      obtain ⟨sustained, hlength, hlayout⟩ := h.layout_eq_lay (r := r) ha hd
      obtain ⟨source, hsource, hpoints⟩ := h.release r
      rw [hlayout]
      exact ⟨r, lay_error hsource hpoints hlength (by omega) (mt (Slice.fits_last n r).1 hr)⟩
    · obtain ⟨attacked, hattack, hattacked⟩ := h.attack_ok ha
      obtain ⟨source, hsource, hpoints⟩ := h.decay d
      obtain ⟨target, htarget⟩ : ∃ target, lay d stages.decay a (a + d) attacked =
          .error (.shapeMismatch [d] target) :=
        lay_error hsource hpoints hattacked (by omega) (mt (Slice.fits_next n a d).1 hd)
      refine ⟨d, target, ?_⟩
      rw [layout_eq, Result.bind_of_ok hattack, Result.bind_of_error htarget]
  · obtain ⟨target, htarget⟩ : ∃ target, lay a (fun k => .ok (stages.attack k)) 0 a
        (List.replicate n stages.peak) = .error (.shapeMismatch [a] target) :=
      lay_error rfl (h.attack a) List.length_replicate (by omega) (mt (Slice.fits_first n a).1 ha)
    refine ⟨a, target, ?_⟩
    rw [layout_eq, Result.bind_of_error htarget]

/-- There is an envelope if each curve has room, or a single point. -/
theorem layout_iff : (∃ xs, stages.layout n a d r = .ok xs) ↔
    (a ≤ n ∨ a = 1) ∧ (d ≤ 1 ∨ a + d ≤ n) ∧ (r ≤ n ∨ r = 1) := by
  constructor
  · rintro ⟨xs, hxs⟩
    apply Classical.byContradiction
    intro hfits
    obtain ⟨k, target, herror⟩ := h.layout_error hfits
    cases hxs.symm.trans herror
  · rintro ⟨ha, hd, hr⟩
    exact h.layout_ok ha hd hr

end Full

/-- Stages that fit into a note stand in its envelope one over the other, the release last. -/
theorem getElem?_layout {n a d r : Nat} {decay release : List α} {level : α}
    (hattack : (stages.attack a).length = a) (hdecay : stages.decay d = .ok decay)
    (hdecaying : decay.length = d) (hlevel : stages.sustain = .ok [level])
    (hrelease : stages.release r = .ok release) (hreleasing : release.length = r)
    (hfirst : a + d ≤ n) (hlast : r ≤ n) :
    ∃ xs, stages.layout n a d r = .ok xs ∧ xs.length = n ∧ ∀ i < n, xs[i]? =
      if n - r ≤ i then release[i - (n - r)]?
      else if i < a then (stages.attack a)[i]?
      else if i < a + d then decay[i - a]?
      else some level := by
  have hflat : (List.replicate n stages.peak).length = n := List.length_replicate
  obtain ⟨attacked, hattack, hattacked, hattackAt⟩ : ∃ ys,
      lay a (fun k => .ok (stages.attack k)) 0 a (List.replicate n stages.peak) = .ok ys ∧
        ys.length = _ ∧ ∀ i, ys[i]? = _ :=
    getElem?_lay (k := 0) rfl (if_pos hattack) rfl (by omega) (by omega)
  obtain ⟨decayed, hdecay, hdecayed, hdecayAt⟩ : ∃ ys, lay d stages.decay a (a + d) attacked =
      .ok ys ∧ ys.length = _ ∧ ∀ i, ys[i]? = _ :=
    getElem?_lay (k := a) hdecay (if_pos hdecaying) rfl rfl (by omega)
  obtain ⟨sustained, hsustain, hsustained, hsustainAt⟩ : ∃ ys, lay (n - a - d - r)
      (fun _ => stages.sustain) (a + d) (a + d + (n - a - d - r)) decayed = .ok ys ∧
        ys.length = _ ∧ ∀ i, ys[i]? = _ :=
    getElem?_lay (k := a + d) hlevel (Slice.fitted_single _ level) rfl rfl (by omega)
  obtain ⟨xs, hxs, hlength, hreleaseAt⟩ : ∃ ys, lay r stages.release (n - r) n sustained =
      .ok ys ∧ ys.length = _ ∧ ∀ i, ys[i]? = _ :=
    getElem?_lay (k := n - r) hrelease (if_pos hreleasing) (by omega) (by omega) (by omega)
  refine ⟨xs, ?_, by omega, fun i hi => ?_⟩
  · rw [layout_eq, Result.bind_of_ok hattack, Result.bind_of_ok hdecay, Result.bind_of_ok hsustain]
    exact hxs
  · rw [hreleaseAt, hsustainAt, hdecayAt, hattackAt]
    by_cases hr : n - r ≤ i
    · rw [if_pos (by omega), if_pos hr]
    · rw [if_neg (by omega), if_neg hr]
      by_cases ha : i < a
      · rw [if_neg (by omega), if_neg (by omega), if_pos (by omega), if_pos ha]
        rfl
      · rw [if_neg ha]
        by_cases hd : i < a + d
        · rw [if_neg (by omega), if_pos (by omega), if_pos hd]
        · rw [if_pos (by omega), if_neg hd, List.getElem?_replicate, if_pos (by omega)]

/-- A note that ends with its decay or before has its attack at most. -/
theorem layoutWithin_short {n a d r : Nat} (hshort : n ≤ a + d) :
    stages.layoutWithin n a d r =
      if a < n then lay a (fun k => .ok (stages.attack k)) 0 a (List.replicate n stages.peak)
      else .ok (List.replicate n stages.peak) := by
  have hdecay : ¬((a : Int) + d < n) := by omega
  have hrelease : ¬(0 < (r : Int) ∧ max ((a : Int) + d) (n - r) < n) := by omega
  rw [layoutWithin]
  simp only [if_neg hdecay, if_neg hrelease, Int.ofNat_lt]
  split
  · cases lay a (fun k => Except.ok (stages.attack k)) 0 a (List.replicate n stages.peak) <;> rfl
  · rfl

/-- A note that lasts longer has every stage, the release as far as it leaves the end free. -/
theorem layoutWithin_long {n a d r : Nat} (hlong : a + d < n) :
    stages.layoutWithin n a d r = (do
      let attacked ← lay a (fun k => .ok (stages.attack k)) 0 a (List.replicate n stages.peak)
      let decayed ← lay d stages.decay a (a + d) attacked
      let level ← stages.sustain
      let sustained ← Slice.assign decayed (a + d) (max (a + d) (n - r)) level
      if 0 < (r : Int) ∧ max ((a : Int) + d) (n - r) < n then do
        let source ← stages.release (min (r : Int) (n - max ((a : Int) + d) (n - r))).toNat
        Slice.assign sustained (max (a + d) (n - r)) n source
      else .ok sustained) := by
  have ha : (a : Int) < n := by omega
  have hd : (a : Int) + d < n := by omega
  rw [layoutWithin]
  simp only [if_pos ha, if_pos hd]
  rfl

section Within

variable {n a d r : Nat} {decay release : List α} {level : α}
  (hattack : (stages.attack a).length = a) (hdecay : stages.decay d = .ok decay)
  (hdecaying : decay.length = d) (hlevel : stages.sustain = .ok [level])
  (hrelease : stages.release (n - max (a + d) (n - r)) = .ok release)
  (hreleasing : release.length = n - max (a + d) (n - r))

include hattack in
theorem getElem?_layoutWithin_short (hshort : n ≤ a + d) :
    ∃ xs, stages.layoutWithin n a d r = .ok xs ∧ xs.length = n ∧ ∀ i < n, xs[i]? =
      if i < a ∧ a < n then (stages.attack a)[i]? else some stages.peak := by
  have hflat : (List.replicate n stages.peak).length = n := List.length_replicate
  rw [layoutWithin_short hshort]
  by_cases ha : a < n
  · obtain ⟨xs, hxs, hlength, hvalues⟩ : ∃ ys,
        lay a (fun k => .ok (stages.attack k)) 0 a (List.replicate n stages.peak) = .ok ys ∧
          ys.length = _ ∧ ∀ i, ys[i]? = _ :=
      getElem?_lay (k := 0) rfl (if_pos hattack) rfl (by omega) (by omega)
    refine ⟨xs, by rw [if_pos ha, hxs], by omega, fun i hi => ?_⟩
    rw [hvalues, List.getElem?_replicate, if_pos hi]
    by_cases hi : i < a
    · rw [if_pos (by omega), if_pos ⟨hi, ha⟩]
      rfl
    · rw [if_neg (by omega), if_neg fun h => hi h.1]
  · refine ⟨_, if_neg ha, hflat, fun i hi => ?_⟩
    rw [List.getElem?_replicate, if_pos hi, if_neg fun h => ha h.2]

include hattack hdecay hdecaying hlevel hrelease hreleasing

theorem getElem?_layoutWithin_long (hlong : a + d < n) :
    ∃ xs, stages.layoutWithin n a d r = .ok xs ∧ xs.length = n ∧ ∀ i < n, xs[i]? =
      if i < a then (stages.attack a)[i]?
      else if i < a + d then decay[i - a]?
      else if i < max (a + d) (n - r) then some level
      else release[i - max (a + d) (n - r)]? := by
  have hflat : (List.replicate n stages.peak).length = n := List.length_replicate
  obtain ⟨attacked, hattack, hattacked, hattackAt⟩ : ∃ ys,
      lay a (fun k => .ok (stages.attack k)) 0 a (List.replicate n stages.peak) = .ok ys ∧
        ys.length = _ ∧ ∀ i, ys[i]? = _ :=
    getElem?_lay (k := 0) rfl (if_pos hattack) rfl (by omega) (by omega)
  obtain ⟨decayed, hdecay, hdecayed, hdecayAt⟩ : ∃ ys, lay d stages.decay a (a + d) attacked =
      .ok ys ∧ ys.length = _ ∧ ∀ i, ys[i]? = _ :=
    getElem?_lay (k := a) hdecay (if_pos hdecaying) rfl rfl (by omega)
  obtain ⟨sustained, hsustain, hsustainAt⟩ : ∃ ys, Slice.assign decayed (a + d)
      (max (a + d) (n - r)) [level] = .ok ys ∧ ∀ i, ys[i]? = _ :=
    Slice.getElem?_assign (k := a + d) (m := max (a + d) (n - r)) rfl (by omega) (by omega)
      (by omega) (Slice.fitted_single _ level)
  have hsustained := Slice.length_assign hsustain
  have hrun : stages.layoutWithin n a d r = _ := layoutWithin_long hlong
  rw [Result.bind_of_ok hattack, Result.bind_of_ok hdecay, Result.bind_of_ok hlevel,
    Result.bind_of_ok hsustain] at hrun
  obtain ⟨xs, hxs, hlength, hreleaseAt⟩ : ∃ xs, stages.layoutWithin n a d r = .ok xs ∧
      xs.length = n ∧ ∀ i, xs[i]? = if max (a + d) (n - r) ≤ i ∧ i < n then
        release[i - max (a + d) (n - r)]? else sustained[i]? := by
    by_cases hreleased : max (a + d) (n - r) < n
    · -- The sustain stops before the end only for a release, which then reaches over all the rest.
      have hpoints : (min (r : Int) (n - max ((a : Int) + d) (n - r))).toNat =
          n - max (a + d) (n - r) := by omega
      obtain ⟨xs, hxs, hreleaseAt⟩ : ∃ ys, Slice.assign sustained (max (a + d) (n - r)) n release =
          .ok ys ∧ ∀ i, ys[i]? = _ :=
        Slice.getElem?_assign (k := max (a + d) (n - r)) (m := n) (by omega) rfl (by omega)
          (by omega) (if_pos hreleasing)
      have hlength := Slice.length_assign hxs
      refine ⟨xs, ?_, by omega, hreleaseAt⟩
      rw [hrun, if_pos (by omega), hpoints, Result.bind_of_ok hrelease, hxs]
    · refine ⟨sustained, ?_, by omega, fun i => ?_⟩
      · rw [hrun, if_neg (by omega)]
      · rw [if_neg (by omega)]
  refine ⟨xs, hxs, hlength, fun i hi => ?_⟩
  rw [hreleaseAt, hsustainAt, hdecayAt, hattackAt]
  by_cases ha : i < a
  · rw [if_neg (by omega), if_neg (by omega), if_neg (by omega), if_pos (by omega), if_pos ha]
    rfl
  · rw [if_neg ha]
    by_cases hd : i < a + d
    · rw [if_neg (by omega), if_neg (by omega), if_pos (by omega), if_pos hd]
    · rw [if_neg hd]
      by_cases hr : i < max (a + d) (n - r)
      · rw [if_neg (by omega), if_pos (by omega), if_pos hr, List.getElem?_replicate,
          if_pos (by omega)]
      · rw [if_pos (by omega), if_neg hr]

/-- Stages of fixed lengths give every note an envelope. -/
theorem getElem?_layoutWithin :
    ∃ xs, stages.layoutWithin n a d r = .ok xs ∧ xs.length = n ∧ ∀ i < n, xs[i]? =
      if a + d ≤ i then
        if i < max (a + d) (n - r) then some level else release[i - max (a + d) (n - r)]?
      else if a ≤ i then if a + d < n then decay[i - a]? else some stages.peak
      else if a < n then (stages.attack a)[i]? else some stages.peak := by
  by_cases hlong : a + d < n
  · obtain ⟨xs, hxs, hlength, hvalues⟩ := getElem?_layoutWithin_long hattack hdecay hdecaying hlevel
      hrelease hreleasing hlong
    refine ⟨xs, hxs, hlength, fun i hi => ?_⟩
    rw [hvalues i hi, if_pos hlong, if_pos (by omega : a < n)]
    by_cases ha : i < a
    · rw [if_pos ha, if_neg (by omega), if_neg (by omega)]
    · rw [if_neg ha]
      by_cases hd : i < a + d
      · rw [if_pos hd, if_neg (by omega), if_pos (by omega)]
      · rw [if_neg hd, if_pos (by omega : a + d ≤ i)]
  · obtain ⟨xs, hxs, hlength, hvalues⟩ : ∃ xs, stages.layoutWithin n a d r = .ok xs ∧ _ :=
      getElem?_layoutWithin_short hattack (by omega)
    refine ⟨xs, hxs, hlength, fun i hi => ?_⟩
    rw [hvalues i hi, if_neg hlong, if_neg (by omega : ¬a + d ≤ i)]
    by_cases ha : a ≤ i
    · rw [if_pos ha, if_neg (by omega)]
    · rw [if_neg ha]
      by_cases hn : a < n
      · rw [if_pos hn, if_pos (by omega)]
      · rw [if_neg hn, if_neg (by omega)]

end Within

end Stages
end TuneScript
