import Mathlib.Tactic
import QuorumVault.Json.Decode
import QuorumVault.Proofs.Json.Text

/-!
# Reading records

A record is read from the text of an object whatever the order of its members is, whether a member
that may be left out is null or absent, and whatever other members there are (`Loosens`): the value
is the one that the record builds from the members that it knows (`Record.ofText_of_build`).

This holds for all records that are put together from `required` and `optional` members (`Regular`).
-/

namespace QuorumVault

/-- What is read from the text of a value is what a reader makes of it. -/
theorem Decode.ofText_text {α : Type} (reader : Form → Reader α) (json : Json) :
    ofText reader json.text = reader .text (Draft.reread json) := by
  unfold ofText
  rw [Document.ofText_text]
  cases h : reader .text (Draft.reread json) with
  | error fault => simp only [h, Bind.bind, Except.bind]
  | ok a => simp only [h, closing, Bind.bind, Except.bind]

/-! ### Members -/

namespace Draft

/-- A member as a draft holds it. -/
def member (p : String × Draft) : Draft × Draft := (.string (.ok p.1) none, p.2)

theorem rereadMembers_eq (members : List (String × Json)) :
    rereadMembers members = (members.map (Prod.map id reread)).map member := by
  induction members with
  | nil => rfl
  | cons p members ih => rw [rereadMembers, ih, List.map_cons, List.map_cons]; rfl

end Draft

/-- Where no name occurs twice, a member is found under its name. -/
theorem lookup_eq_some_iff_mem {α : Type} {members : List (String × α)}
    (hnodup : (members.map Prod.fst).Nodup) {name : String} {a : α} :
    members.lookup name = some a ↔ (name, a) ∈ members := by
  induction members with
  | nil => simp
  | cons p members ih =>
    obtain ⟨n, b⟩ := p
    rw [List.map_cons, List.nodup_cons] at hnodup
    rw [List.lookup_cons, List.mem_cons]
    by_cases h : name = n
    · subst h
      have hnot : (name, a) ∉ members := fun hmem => hnodup.1 (List.mem_map.mpr ⟨_, hmem, rfl⟩)
      simp [hnot, eq_comm]
    · have hfalse : (name == n) = false := by simpa using h
      simp [hfalse, h, ih hnodup.2]

theorem lookup_of_perm {α : Type} {members members' : List (String × α)}
    (h : members.Perm members') (hnodup : (members.map Prod.fst).Nodup) (name : String) :
    members.lookup name = members'.lookup name := by
  have hnodup' := (h.map Prod.fst).nodup_iff.mp hnodup
  apply Option.ext
  intro a
  rw [lookup_eq_some_iff_mem hnodup, lookup_eq_some_iff_mem hnodup', h.mem_iff]

namespace Decode.Record

variable {α β : Type}

/-- The names of the members that a record knows. -/
def names (r : Record α) : List String := r.fields.map (·.name)

/-- A member that a record knows and that may be left out. -/
def MayOmit (r : Record α) (name : String) : Prop :=
  name ∈ r.names ∧ ∀ field ∈ r.fields, field.name = name → field.fallback ≠ .required

theorem isSome_find?_iff {fields : List Field} {name : String} :
    (fields.find? (·.name == name)).isSome = true ↔ name ∈ fields.map (·.name) := by
  rw [List.find?_isSome, List.mem_map]
  simp

theorem of_find?_eq_some {fields : List Field} {field : Field} {name : String}
    (h : fields.find? (·.name == name) = some field) : field ∈ fields ∧ field.name = name :=
  ⟨List.mem_of_find?_eq_some h, by simpa using List.find?_some h⟩

/-! ### Visiting members -/

/-- A known member that is seen for the first time is found. -/
theorem visit_cons {fields : List Field} {field : Field} {seen : List String} {name : String}
    {value : Draft} {rest : List (Draft × Draft)} {found : List (String × Draft)}
    (hfield : fields.find? (·.name == name) = some field) (hseen : seen.contains name = false)
    (hcheck : field.check value = .ok ()) (hrest : visit fields (name :: seen) rest = .ok found) :
    visit fields seen ((.string (.ok name) none, value) :: rest) =
      .ok ((name, value) :: found) := by
  simp only [visit, Draft.name, ofReading, Bind.bind, Except.bind, hfield, hseen, hcheck, hrest,
    Bool.false_eq_true, if_false]

/-- An unknown member is passed over. -/
theorem visit_cons_of_unknown {fields : List Field} {seen : List String} {name : String}
    {value : Draft} (rest : List (Draft × Draft))
    (hfield : fields.find? (·.name == name) = none) (hskip : value.skip = none) :
    visit fields seen ((.string (.ok name) none, value) :: rest) = visit fields seen rest := by
  simp only [visit, Draft.name, ofReading, Bind.bind, Except.bind, hfield, hskip, closing]

/-- The members that are known are found, if each is there once and passes its check, and the others
can be passed over. -/
theorem visit_map_member {fields : List Field} {seen : List String}
    {members : List (String × Draft)}
    (hseen : ∀ p ∈ members, p.1 ∈ fields.map (·.name) → p.1 ∉ seen)
    (hcheck : ∀ p ∈ members, ∀ field ∈ fields, field.name = p.1 → field.check p.2 = .ok ())
    (hskip : ∀ p ∈ members, p.1 ∉ fields.map (·.name) → p.2.skip = none)
    (hnodup : ((members.filter fun p => (fields.find? (·.name == p.1)).isSome).map
      Prod.fst).Nodup) :
    visit fields seen (members.map Draft.member) =
      .ok (members.filter fun p => (fields.find? (·.name == p.1)).isSome) := by
  induction members generalizing seen with
  | nil => rfl
  | cons p members ih =>
    rw [List.map_cons]
    have hcheck' : ∀ q ∈ members, ∀ field ∈ fields, field.name = q.1 → field.check q.2 = .ok () :=
      fun q hq => hcheck q (List.mem_cons_of_mem p hq)
    have hskip' : ∀ q ∈ members, q.1 ∉ fields.map (·.name) → q.2.skip = none :=
      fun q hq => hskip q (List.mem_cons_of_mem p hq)
    cases hfield : fields.find? (·.name == p.1) with
    | none =>
      have hunknown : p.1 ∉ fields.map (·.name) := by
        rw [← isSome_find?_iff, hfield]
        exact Bool.false_ne_true
      rw [List.filter_cons_of_neg (by simp [hfield])] at hnodup ⊢
      rw [Draft.member, visit_cons_of_unknown _ hfield (hskip p List.mem_cons_self hunknown)]
      exact ih (fun q hq => hseen q (List.mem_cons_of_mem p hq)) hcheck' hskip' hnodup
    | some field =>
      have hknown : p.1 ∈ fields.map (·.name) := by
        rw [← isSome_find?_iff, hfield]
        rfl
      obtain ⟨hmem, hname⟩ := of_find?_eq_some hfield
      rw [List.filter_cons_of_pos (by simp [hfield])] at hnodup ⊢
      rw [List.map_cons, List.nodup_cons] at hnodup
      have hnew : seen.contains p.1 = false := by
        simpa using hseen p List.mem_cons_self hknown
      -- the name does not come again
      have hseen' : ∀ q ∈ members, q.1 ∈ fields.map (·.name) → q.1 ∉ p.1 :: seen := by
        intro q hq hqknown hqseen
        rcases List.mem_cons.mp hqseen with hqp | hqseen
        · apply hnodup.1
          rw [← hqp]
          refine List.mem_map_of_mem (List.mem_filter.mpr ⟨hq, ?_⟩)
          exact isSome_find?_iff.mpr hqknown
        · exact hseen q (List.mem_cons_of_mem p hq) hqknown hqseen
      exact visit_cons hfield hnew (hcheck p List.mem_cons_self field hmem hname)
        (ih hseen' hcheck' hskip' hnodup.2)

/-! ### Records that are put together from members -/

/-- What holds of every record that is put together from required and optional members. -/
structure Regular (r : Record α) : Prop where
  /-- A value is built only of members that pass their checks. -/
  check_of_build : ∀ {find : String → Option Draft} {a : α}, r.build find = .ok a →
    ∀ field ∈ r.fields, ∀ d, find field.name = some d → field.check d = .ok ()
  /-- Only the members that are known are looked at, and for those that may be left out null is as
  good as nothing. -/
  build_congr : ∀ {find find' : String → Option Draft},
    (∀ field ∈ r.fields, find' field.name = find field.name ∨
      field.fallback ≠ .required ∧ find field.name = none ∧ find' field.name = some .null) →
    r.build find' = r.build find
  /-- A member that may be left out may be null. -/
  check_null : ∀ field ∈ r.fields, field.fallback ≠ .required → field.check .null = .ok ()

theorem regular_required (name : String) (reader : Reader α) :
    (required name reader).Regular where
  check_of_build := by
    intro find a h field hfield d hd
    obtain rfl := List.mem_singleton.mp hfield
    have hreader : reader d = .ok a := by
      simp only [required] at h hd
      rwa [hd] at h
    show (reader d).map (fun _ => ()) = .ok ()
    rw [hreader]
    rfl
  build_congr := by
    intro find find' h
    rcases h _ List.mem_cons_self with hsame | ⟨hfallback, -⟩
    · simp only [required] at hsame ⊢
      rw [hsame]
    · exact absurd rfl hfallback
  check_null := by
    intro field hfield hfallback
    obtain rfl := List.mem_singleton.mp hfield
    exact absurd rfl hfallback

theorem regular_optional (name : String) (fallback : Fallback) (reader : Reader α) :
    (optional name fallback reader).Regular where
  check_of_build := by
    intro find a h field hfield d hd
    obtain rfl := List.mem_singleton.mp hfield
    have hreader : nullable reader d = .ok a := by
      simp only [optional] at h hd
      rwa [hd] at h
    show (nullable reader d).map (fun _ => ()) = .ok ()
    rw [hreader]
    rfl
  build_congr := by
    intro find find' h
    rcases h _ List.mem_cons_self with hsame | ⟨-, hnone, hnull⟩
    · simp only [optional] at hsame ⊢
      rw [hsame]
    · simp only [optional] at hnone hnull ⊢
      rw [hnone, hnull]
      rfl
  check_null := by
    intro field hfield hfallback
    obtain rfl := List.mem_singleton.mp hfield
    rfl

theorem regular_pure (a : α) : (pure a : Record α).Regular where
  check_of_build := fun _ _ hfield => absurd hfield List.not_mem_nil
  build_congr := fun _ => rfl
  check_null := fun _ hfield => absurd hfield List.not_mem_nil

theorem regular_seq {f : Record (α → β)} {r : Record α} (hf : f.Regular) (hr : r.Regular) :
    (f <*> r).Regular where
  check_of_build := by
    intro find b h field hfield d hd
    cases hg : f.build find with
    | error fault =>
      simp only [Seq.seq, hg, Bind.bind, Except.bind] at h
      cases h
    | ok g =>
      cases ha : r.build find with
      | error fault =>
        simp only [Seq.seq, hg, ha, Bind.bind, Except.bind] at h
        cases h
      | ok a =>
        rcases List.mem_append.mp hfield with hfield | hfield
        · exact hf.check_of_build hg field hfield d hd
        · exact hr.check_of_build ha field hfield d hd
  build_congr := by
    intro find find' h
    have hleft := hf.build_congr fun field hfield => h field (List.mem_append_left _ hfield)
    have hright := hr.build_congr fun field hfield => h field (List.mem_append_right _ hfield)
    simp only [Seq.seq, hleft, hright]
  check_null := by
    intro field hfield
    rcases List.mem_append.mp hfield with hfield | hfield
    · exact hf.check_null field hfield
    · exact hr.check_null field hfield

theorem regular_map (f : α → β) {r : Record α} (hr : r.Regular) : (f <$> r).Regular :=
  regular_seq (regular_pure f) hr

/-! ### Building a value -/

variable {find : String → Option Draft} {name : String} {reader : Reader α} {d : Draft} {a : α}

theorem build_required (hfind : find name = some d) (hreader : reader d = .ok a) :
    (required name reader).build find = .ok a := by
  simp only [required, hfind, hreader]

theorem build_optional_of_none (fallback : Fallback) (hfind : find name = none) :
    (optional name fallback reader).build find = .ok none := by
  simp only [optional, hfind]

theorem build_optional_of_some (fallback : Fallback) (hfind : find name = some d)
    (hreader : nullable reader d = .ok (some a)) :
    (optional name fallback reader).build find = .ok (some a) := by
  simp only [optional, hfind, hreader]

theorem build_seq {f : Record (α → β)} {r : Record α} {g : α → β} (hf : f.build find = .ok g)
    (hr : r.build find = .ok a) : (f <*> r).build find = .ok (g a) := by
  simp only [Seq.seq, hf, hr, Bind.bind, Except.bind]

theorem build_map (f : α → β) {r : Record α} (hr : r.build find = .ok a) :
    (f <$> r).build find = .ok (f a) :=
  build_seq (f := pure f) rfl hr

/-! ### Objects -/

/-- A record is read from the members of which it is built, among others that are unknown and nulls
in the places of members that may be left out, in any order. -/
theorem read_of_build {r : Record α} (hr : r.Regular) (form : Form) (name : String) {a : α}
    {base nulls extra members : List (String × Draft)}
    (hbuild : r.build (fun n => base.lookup n) = .ok a) (hbase : (base.map Prod.fst).Nodup)
    (hknown : ∀ p ∈ base, p.1 ∈ r.names) (hnulls : (nulls.map Prod.fst).Nodup)
    (hnull : ∀ p ∈ nulls, p.2 = .null ∧ p.1 ∉ base.map Prod.fst ∧ r.MayOmit p.1)
    (hextra : ∀ p ∈ extra, p.1 ∉ r.names ∧ p.2.skip = none)
    (hperm : members.Perm (base ++ nulls ++ extra)) :
    r.read form name (.object (members.map Draft.member) none) = .ok a := by
  have hnodup : ((base ++ nulls).map Prod.fst).Nodup := by
    rw [List.map_append, List.nodup_append']
    refine ⟨hbase, hnulls, ?_⟩
    intro n hn hn'
    obtain ⟨p, hp, rfl⟩ := List.mem_map.mp hn'
    exact (hnull p hp).2.1 hn
  -- what is known of the members are those of which the value is built, and the nulls
  have hfilter : (members.filter fun p => (r.fields.find? (·.name == p.1)).isSome).Perm
      (base ++ nulls) := by
    have hkeep : (base ++ nulls).filter (fun p => (r.fields.find? (·.name == p.1)).isSome) =
        base ++ nulls := by
      apply List.filter_eq_self.mpr
      intro p hp
      rcases List.mem_append.mp hp with hp | hp
      · exact isSome_find?_iff.mpr (hknown p hp)
      · exact isSome_find?_iff.mpr (hnull p hp).2.2.1
    have hdrop : extra.filter (fun p => (r.fields.find? (·.name == p.1)).isSome) = [] := by
      apply List.filter_eq_nil_iff.mpr
      intro p hp h
      exact (hextra p hp).1 (isSome_find?_iff.mp h)
    have h := hperm.filter fun p => (r.fields.find? (·.name == p.1)).isSome
    rwa [List.filter_append, hkeep, hdrop, List.append_nil] at h
  have hcases {p : String × Draft} (hp : p ∈ members) : p ∈ base ∨ p ∈ nulls ∨ p ∈ extra := by
    rw [hperm.mem_iff, List.mem_append, List.mem_append] at hp
    exact or_assoc.mp hp
  have hfound : visit r.fields [] (members.map Draft.member) =
      .ok (members.filter fun p => (r.fields.find? (·.name == p.1)).isSome) := by
    apply visit_map_member
    · exact fun p _ _ => List.not_mem_nil
    · intro p hp field hfield hname
      have hpknown : p.1 ∈ r.names := List.mem_map.mpr ⟨field, hfield, hname⟩
      rcases hcases hp with hp | hp | hp
      · refine hr.check_of_build hbuild field hfield p.2 ?_
        rw [hname]
        exact (lookup_eq_some_iff_mem hbase).mpr hp
      · obtain ⟨hvalue, -, -, homit⟩ := hnull p hp
        rw [hvalue]
        exact hr.check_null field hfield (homit field hfield hname)
      · exact absurd hpknown (hextra p hp).1
    · intro p hp hunknown
      rcases hcases hp with hp | hp | hp
      · exact absurd (hknown p hp) hunknown
      · exact absurd (hnull p hp).2.2.1 hunknown
      · exact (hextra p hp).2
    · exact (hfilter.map Prod.fst).nodup_iff.mpr hnodup
  -- for a member that may be left out, null builds what its absence does
  have hsame : r.build (fun n =>
      (members.filter fun p => (r.fields.find? (·.name == p.1)).isSome).lookup n) =
        r.build fun n => base.lookup n := by
    apply hr.build_congr
    intro field hfield
    have hlookup := lookup_of_perm hfilter.symm hnodup field.name
    rw [← hlookup, List.lookup_append]
    cases hb : base.lookup field.name with
    | some d => exact .inl rfl
    | none =>
      cases hn : nulls.lookup field.name with
      | none => exact .inl rfl
      | some d =>
        obtain ⟨hvalue, -, -, homit⟩ := hnull _ ((lookup_eq_some_iff_mem hnulls).mp hn)
        exact .inr ⟨homit field hfield rfl, rfl, congrArg some hvalue⟩
  unfold read
  simp only [hfound, closing, Bind.bind, Except.bind]
  rw [hsame, hbuild]

/-- An object that a record reads as another one: the members are in any order, some that may be
left out are null where they are not there, and there are others that are unknown. -/
inductive Loosens (r : Record α) : Json → Json → Prop where
  | intro {base members : List (String × Json)} (nulls extra : List (String × Json))
      (hperm : members.Perm (base ++ nulls ++ extra)) (hnulls : (nulls.map Prod.fst).Nodup)
      (hnull : ∀ p ∈ nulls, p.2 = .null ∧ p.1 ∉ base.map Prod.fst ∧ r.MayOmit p.1)
      (hextra : ∀ p ∈ extra, p.1 ∉ r.names) : Loosens r (.object base) (.object members)

theorem Loosens.refl (r : Record α) (members : List (String × Json)) :
    Loosens r (.object members) (.object members) :=
  .intro [] [] (by simp) List.nodup_nil
    (fun _ h => absurd h List.not_mem_nil) (fun _ h => absurd h List.not_mem_nil)

/-- **Objects**: what a record builds from the members of an object is what is read from the text
of the object and of every other one that it takes for it. -/
theorem ofText_of_build {r : Form → Record α} (hr : (r .text).Regular) (name : String) {a : α}
    {base : List (String × Json)} {json : Json}
    (hbuild : (r .text).build (fun n => (base.map (Prod.map id Draft.reread)).lookup n) = .ok a)
    (hbase : (base.map Prod.fst).Nodup) (hknown : ∀ p ∈ base, p.1 ∈ (r .text).names)
    (hloosens : Loosens (r .text) (.object base) json) :
    ofText (fun form => (r form).read form name) json.text = .ok a := by
  have hfst (members : List (String × Json)) :
      (members.map (Prod.map id Draft.reread)).map Prod.fst = members.map Prod.fst := by
    rw [List.map_map]
    rfl
  obtain @⟨base, members, nulls, extra, hperm, hnulls, hnull, hextra⟩ := hloosens
  have hperm' := hperm.map (Prod.map id Draft.reread)
  rw [List.map_append, List.map_append] at hperm'
  rw [ofText_text, Draft.reread, Draft.rereadMembers_eq]
  refine read_of_build hr .text name hbuild ?_ ?_ ?_ ?_ ?_ hperm'
  · rwa [hfst]
  · exact List.forall_mem_map.mpr hknown
  · rwa [hfst]
  · intro p hp
    obtain ⟨q, hq, rfl⟩ := List.mem_map.mp hp
    obtain ⟨hvalue, hnew, homit⟩ := hnull q hq
    refine ⟨?_, by rwa [hfst], homit⟩
    show Draft.reread q.2 = .null
    rw [hvalue]
    rfl
  · intro p hp
    obtain ⟨q, hq, rfl⟩ := List.mem_map.mp hp
    exact ⟨hextra q hq, Draft.skip_reread q.2⟩

end Decode.Record

end QuorumVault
