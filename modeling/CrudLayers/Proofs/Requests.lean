import CrudLayers.Proofs.Statements
import Mathlib.Data.List.Induction

namespace CrudLayers

structure Request where
  origin : Origin
  source : String
  names : List String
deriving DecidableEq

namespace Request

/-- The requests that ask for some name. -/
def effective (rs : List Request) : List Request :=
  rs.filter (fun r => r.names ≠ [])

def sentTo (source : String) (rs : List Request) : List Request :=
  rs.filter (fun r => r.source = source)

/-- How many requests come before the first that goes to a module. -/
def turn (rs : List Request) (source : String) : Nat :=
  (rs.map Request.source).idxOf source

theorem effective_concat (rs : List Request) (r : Request) :
    effective (rs ++ [r]) = if r.names = [] then effective rs else effective rs ++ [r] := by
  by_cases hr : r.names = []
  · simp [effective, hr]
  · simp [effective, hr]

theorem mem_effective {r : Request} {rs : List Request} :
    r ∈ effective rs ↔ r ∈ rs ∧ r.names ≠ [] := by
  simp [effective]

variable {rs : List Request} {r : Request} {s : String}

theorem sentTo_concat_self : sentTo r.source (rs ++ [r]) = sentTo r.source rs ++ [r] := by
  simp [sentTo]

theorem sentTo_concat_other (h : r.source ≠ s) : sentTo s (rs ++ [r]) = sentTo s rs := by
  simp [sentTo, h]

theorem sentTo_of_not_mem (h : s ∉ rs.map Request.source) : sentTo s rs = [] := by
  rw [sentTo, List.filter_eq_nil_iff]
  intro q hq hs
  exact h (List.mem_map.mpr ⟨q, hq, by simpa using hs⟩)

/-- A later request does not change whose turn comes when. -/
theorem turn_concat (h : s ∈ rs.map Request.source) : turn (rs ++ [r]) s = turn rs s := by
  rw [turn, List.map_append, List.idxOf_append_of_mem h, turn]

theorem turn_concat_new (h : r.source ∉ rs.map Request.source) :
    turn (rs ++ [r]) r.source = rs.length := by
  rw [turn, List.map_append, List.idxOf_append_of_notMem h]
  simp

theorem turn_lt (h : s ∈ rs.map Request.source) : turn rs s < rs.length := by
  have hlt := List.idxOf_lt_length_iff.mpr h
  rwa [List.length_map] at hlt

end Request

section Names

variable {known l more : List String}

theorem addNew_append : addNew known (l ++ more) = addNew (addNew known l) more := by
  induction l generalizing known with
  | nil => rfl
  | cons s rest ih => exact ih

/-- Adding new texts to some drops those that are there and all but the first of each other. -/
theorem addNew_eq : addNew known l = known ++ (l.removeAll known).eraseDups := by
  induction l generalizing known with
  | nil => simp [addNew, List.removeAll]
  | cons s rest ih =>
    rw [addNew, ih]
    by_cases hs : s ∈ known
    · simp [hs, List.removeAll]
    · have hfilter : (rest.removeAll known).filter (fun t => !t == s) =
          rest.removeAll (known ++ [s]) := by
        simp only [List.removeAll, List.filter_filter]
        congr 1
        funext t
        by_cases ht : t = s <;> simp [ht]
      have hcons : (s :: rest).removeAll known = s :: rest.removeAll known := by
        simp [List.removeAll, hs]
      rw [if_neg hs, hcons, List.eraseDups_cons, hfilter, List.append_assoc]
      rfl

theorem addNew_nil : addNew [] l = l.eraseDups := by
  rw [addNew_eq, List.nil_append]
  simp [List.removeAll]

end Names

namespace Import

/-- The statement has all that was asked from its module, and stands in the group of the first
request. -/
structure Answers (rs : List Request) (i : Import) : Prop where
  origin : ∃ r rest, Request.sentTo i.source rs = r :: rest ∧ i.origin = r.origin
  names : i.names = ((Request.sentTo i.source rs).flatMap Request.names).eraseDups

/-- The statements answer the requests, in the order in which the modules had their turns. -/
structure Meets (rs : List Request) (imports : List Import) : Prop where
  sources : ∀ s, s ∈ imports.map Import.source ↔ s ∈ rs.map Request.source
  answers : ∀ i ∈ imports, i.Answers rs
  order : (imports.map Import.source).Pairwise
    (fun s t => Request.turn rs s < Request.turn rs t)

variable {rs : List Request} {imports : List Import} {r : Request}

theorem meets_nil : Meets [] [] :=
  ⟨fun _ => Iff.rfl, List.forall_mem_nil _, .nil⟩

theorem Meets.nodup (h : Meets rs imports) : (imports.map Import.source).Nodup := by
  refine h.order.imp ?_
  rintro s t hlt rfl
  exact Nat.lt_irrefl _ hlt

theorem sources_merge (origin : Origin) (source : String) (names : List String)
    (imports : List Import) : (merge origin source names imports).map Import.source =
      if source ∈ imports.map Import.source then imports.map Import.source
      else imports.map Import.source ++ [source] := by
  induction imports with
  | nil => simp [merge]
  | cons i rest ih =>
    by_cases hi : i.source = source
    · simp [merge, hi]
    · rw [merge, if_neg hi, List.map_cons, ih]
      by_cases hs : source ∈ rest.map Import.source
      · simp [hs]
      · simp [hs, Ne.symm hi]

/-- A merged statement is one that was there, the one of the module with more names, or new. -/
theorem mem_merge {j : Import} {origin : Origin} {source : String} {names : List String}
    (hnodup : (imports.map Import.source).Nodup) (h : j ∈ merge origin source names imports) :
    j ∈ imports ∧ j.source ≠ source ∨
      (∃ i ∈ imports, i.source = source ∧ j = ⟨i.origin, source, addNew i.names names⟩) ∨
      source ∉ imports.map Import.source ∧ j = ⟨origin, source, addNew [] names⟩ := by
  induction imports with
  | nil =>
    rw [merge, List.mem_singleton] at h
    exact Or.inr (Or.inr ⟨List.not_mem_nil, h⟩)
  | cons i rest ih =>
    obtain ⟨hnew, hrest⟩ := List.nodup_cons.mp hnodup
    rw [merge] at h
    split at h
    · rename_i hi
      rcases List.mem_cons.mp h with rfl | hj
      · exact Or.inr (Or.inl ⟨i, List.mem_cons_self, hi, by rw [hi]⟩)
      · refine Or.inl ⟨List.mem_cons_of_mem _ hj, ?_⟩
        rintro rfl
        exact hnew (hi ▸ List.mem_map_of_mem hj)
    · rename_i hi
      rcases List.mem_cons.mp h with rfl | hj
      · exact Or.inl ⟨List.mem_cons_self, hi⟩
      · rcases ih hrest hj with ⟨hmem, hne⟩ | ⟨k, hk, hsource, rfl⟩ | ⟨hnot, rfl⟩
        · exact Or.inl ⟨List.mem_cons_of_mem _ hmem, hne⟩
        · exact Or.inr (Or.inl ⟨k, List.mem_cons_of_mem _ hk, hsource, rfl⟩)
        · refine Or.inr (Or.inr ⟨?_, rfl⟩)
          rw [List.map_cons, List.mem_cons, not_or]
          exact ⟨Ne.symm hi, hnot⟩

/-- One request more is answered by a merge. -/
theorem Meets.merge (h : Meets rs imports) (r : Request) :
    Meets (rs ++ [r]) (merge r.origin r.source r.names imports) := by
  refine ⟨?_, ?_, ?_⟩
  · intro s
    rw [mem_sources_merge, h.sources, List.map_append, List.mem_append, or_comm]
    simp
  · intro j hj
    rcases mem_merge h.nodup hj with ⟨hmem, hne⟩ | ⟨i, hi, hsource, rfl⟩ | ⟨hnot, rfl⟩
    · obtain ⟨horigin, hnames⟩ := h.answers j hmem
      have hsame : Request.sentTo j.source (rs ++ [r]) = Request.sentTo j.source rs :=
        Request.sentTo_concat_other hne.symm
      exact ⟨by rwa [hsame], by rwa [hsame]⟩
    · obtain ⟨⟨q, rest, hsent, horigin⟩, hnames⟩ := h.answers i hi
      rw [hsource] at hsent hnames
      constructor
      · exact ⟨q, rest ++ [r], by rw [Request.sentTo_concat_self, hsent]; rfl, horigin⟩
      · rw [Request.sentTo_concat_self, List.flatMap_append, ← addNew_nil, addNew_append,
          addNew_nil, ← hnames]
        simp
    · rw [h.sources] at hnot
      have hsent : Request.sentTo r.source (rs ++ [r]) = [r] := by
        rw [Request.sentTo_concat_self, Request.sentTo_of_not_mem hnot, List.nil_append]
      exact ⟨⟨r, [], hsent, rfl⟩, by rw [hsent, addNew_nil]; simp⟩
  · have hold : (imports.map Import.source).Pairwise
        (fun s t => Request.turn (rs ++ [r]) s < Request.turn (rs ++ [r]) t) := by
      refine h.order.imp_of_mem ?_
      intro s t hs ht hlt
      rwa [Request.turn_concat ((h.sources s).mp hs), Request.turn_concat ((h.sources t).mp ht)]
    rw [sources_merge]
    split
    · exact hold
    · rename_i hnot
      refine List.pairwise_append.mpr ⟨hold, List.pairwise_singleton _ _, ?_⟩
      intro s hs t ht
      rw [List.mem_singleton.mp ht, Request.turn_concat ((h.sources s).mp hs),
        Request.turn_concat_new (fun hmem => hnot ((h.sources _).mpr hmem))]
      exact Request.turn_lt ((h.sources s).mp hs)

def addAll (imports : List Import) (rs : List Request) : List Import :=
  rs.foldl (fun is r => add is r.origin r.source r.names) imports

theorem meets_addAll (rs : List Request) : Meets (Request.effective rs) (addAll [] rs) := by
  induction rs using List.reverseRecOn with
  | nil => exact meets_nil
  | append_singleton rs r ih =>
    have hstep : addAll [] (rs ++ [r]) =
        add (addAll [] rs) r.origin r.source r.names := by simp [addAll]
    rw [hstep, Request.effective_concat, add]
    split
    · exact ih
    · exact ih.merge r

def rank (i : Import) : Nat :=
  Origin.all.idxOf i.origin

/-- Grouped statements come in the order of their groups, and within a group as they came. -/
theorem pairwise_grouped {R : Import → Import → Prop} (h : imports.Pairwise R) :
    (grouped imports).Pairwise (fun i j => i.rank < j.rank ∨ i.origin = j.origin ∧ R i j) := by
  rw [grouped, List.pairwise_flatMap]
  constructor
  · intro o _
    refine (h.filter _).imp_of_mem ?_
    intro i j hi hj hij
    have hi' := of_decide_eq_true (List.mem_filter.mp hi).2
    have hj' := of_decide_eq_true (List.mem_filter.mp hj).2
    exact Or.inr ⟨hi'.trans hj'.symm, hij⟩
  · have hall : Origin.all.Pairwise (fun o p => Origin.all.idxOf o < Origin.all.idxOf p) := by
      decide
    refine hall.imp ?_
    intro o p hlt i hi j hj
    have hi' := of_decide_eq_true (List.mem_filter.mp hi).2
    have hj' := of_decide_eq_true (List.mem_filter.mp hj).2
    exact Or.inl (by rwa [rank, rank, hi', hj'])

/-- What the statements of a finished file are, by the requests that were made for them. -/
structure Arranged (rs : List Request) (imports : List Import) : Prop where
  /-- The modules are those that some name was asked from. -/
  sources : ∀ s, s ∈ imports.map Import.source ↔ ∃ r ∈ rs, r.source = s ∧ r.names ≠ []
  statements : ∀ i ∈ imports, i.Answers (Request.effective rs)
  order : imports.Pairwise (fun i j => i.rank < j.rank ∨ i.origin = j.origin ∧
    Request.turn (Request.effective rs) i.source < Request.turn (Request.effective rs) j.source)
  distinct : (imports.map Import.source).Nodup
  named : ∀ i ∈ imports, i.names ≠ [] ∧ i.names.Nodup
  /-- No name is lost. -/
  kept : ∀ r ∈ rs, ∀ name ∈ r.names, ∃ i ∈ imports, i.source = r.source ∧ name ∈ i.names

theorem Answers.names_ne_nil {i : Import} (h : i.Answers (Request.effective rs)) :
    i.names ≠ [] := by
  obtain ⟨r, rest, hsent, _⟩ := h.origin
  have hr : r ∈ Request.sentTo i.source (Request.effective rs) := hsent ▸ List.mem_cons_self
  obtain ⟨name, hname⟩ := List.exists_mem_of_ne_nil _
    (Request.mem_effective.mp (List.mem_filter.mp hr).1).2
  rw [h.names]
  apply List.ne_nil_of_mem
  exact List.mem_eraseDups.mpr (List.mem_flatMap.mpr ⟨r, hr, hname⟩)

theorem arranged_grouped (rs : List Request) : Arranged rs (grouped (addAll [] rs)) := by
  have h := meets_addAll rs
  have hsource : ∀ s, s ∈ (addAll [] rs).map Import.source ↔
      ∃ r ∈ rs, r.source = s ∧ r.names ≠ [] := by
    intro s
    rw [h.sources, List.mem_map]
    simp only [Request.mem_effective]
    exact ⟨fun ⟨r, ⟨hr, hn⟩, hs⟩ => ⟨r, hr, hs, hn⟩, fun ⟨r, hr, hs, hn⟩ => ⟨r, ⟨hr, hn⟩, hs⟩⟩
  have hperm := (grouped_perm (addAll [] rs)).map Import.source
  have horder := h.order
  rw [List.pairwise_map] at horder
  refine ⟨?_, ?_, ?_, ?_, ?_, ?_⟩
  · intro s
    rw [hperm.mem_iff, hsource]
  · intro i hi
    exact h.answers i (mem_grouped.mp hi)
  · exact pairwise_grouped horder
  · exact hperm.nodup_iff.mpr h.nodup
  · intro i hi
    have hanswers := h.answers i (mem_grouped.mp hi)
    refine ⟨hanswers.names_ne_nil, ?_⟩
    rw [hanswers.names, ← addNew_nil]
    exact nodup_addNew List.nodup_nil
  · intro r hr name hname
    obtain ⟨i, hi, his⟩ := List.mem_map.mp
      ((hsource r.source).mpr ⟨r, hr, rfl, List.ne_nil_of_mem hname⟩)
    refine ⟨i, mem_grouped.mpr hi, his, ?_⟩
    rw [(h.answers i hi).names, List.mem_eraseDups, List.mem_flatMap]
    refine ⟨r, List.mem_filter.mpr ⟨Request.mem_effective.mpr ⟨hr, List.ne_nil_of_mem hname⟩, ?_⟩,
      hname⟩
    simpa using his.symm

end Import

namespace Assembly

inductive Step where
  | decorate (d : Decorator)
  | require (r : Request)
  | method (m : Method)
deriving DecidableEq

namespace Step

def decorator? : Step → Option Decorator
  | decorate d => some d
  | _ => none

def request? : Step → Option Request
  | require r => some r
  | _ => none

def method? : Step → Option Method
  | method m => some m
  | _ => none

/-- The decorators, the requests and the methods of some steps, each in their order. -/
def parts (steps : List Step) : List Decorator × List Request × List Method :=
  (steps.filterMap decorator?, steps.filterMap request?, steps.filterMap method?)

end Step

def take (a : Assembly) : Step → Assembly
  | .decorate d => a.decorate d
  | .require r => a.require r.origin r.source r.names
  | .method m => a.method m

def takeAll (a : Assembly) (steps : List Step) : Assembly :=
  steps.foldl take a

/-- Each kind of step adds to its own part of the file, and leaves the others alone. -/
theorem takeAll_eq (a : Assembly) (steps : List Step) : a.takeAll steps =
    ⟨a.layer, a.path, Import.addAll a.imports (steps.filterMap Step.request?),
      ⟨a.decl.name, a.decl.decorators ++ steps.filterMap Step.decorator?, a.decl.collaborator,
        a.decl.methods ++ steps.filterMap Step.method?⟩⟩ := by
  induction steps generalizing a with
  | nil => simp [takeAll, Import.addAll]
  | cons step rest ih =>
    have hstep : a.takeAll (step :: rest) = (a.take step).takeAll rest := rfl
    rw [hstep, ih]
    cases step with
    | decorate d =>
      simp [take, decorate, List.filterMap_cons, Step.decorator?, Step.request?, Step.method?]
    | require r =>
      simp [take, require, Import.addAll, List.filterMap_cons, Step.decorator?, Step.request?,
        Step.method?]
    | method m =>
      simp [take, method, List.filterMap_cons, Step.decorator?, Step.request?, Step.method?]

/-- Whatever the steps: the class has the decorators and the methods in the order of their steps,
the statements are arranged by the requests, and other steps with the same decorators, requests and
methods make the same file. -/
theorem finish_takeAll (layer : Layer) (path className : String) (c : Collaborator)
    (steps : List Step) :
    (((start layer path className c).takeAll steps).finish.layer = layer ∧
      ((start layer path className c).takeAll steps).finish.path = path ∧
      ((start layer path className c).takeAll steps).finish.decl = ⟨className,
        steps.filterMap Step.decorator?, c, steps.filterMap Step.method?⟩) ∧
    Import.Arranged (steps.filterMap Step.request?)
      ((start layer path className c).takeAll steps).finish.imports ∧
    ∀ others, Step.parts others = Step.parts steps →
      ((start layer path className c).takeAll others).finish =
        ((start layer path className c).takeAll steps).finish := by
  refine ⟨?_, ?_, ?_⟩
  · rw [takeAll_eq]
    exact ⟨rfl, rfl, rfl⟩
  · rw [takeAll_eq]
    exact Import.arranged_grouped _
  · intro others hparts
    simp only [Step.parts, Prod.mk.injEq] at hparts
    obtain ⟨hdecorators, hrequests, hmethods⟩ := hparts
    rw [takeAll_eq, takeAll_eq, hdecorators, hrequests, hmethods]

section Interleaved

def orderService : Assembly :=
  start .service "order.service.ts" "OrderService" ⟨"orderRepository", "OrderRepository", none⟩

/-- Two modules are asked for names twice each, one of them at first for none. -/
def decoratedLast : List Step :=
  [.require ⟨.args, "m", ["A", "B", "A"]⟩, .require ⟨.runtime, "n", []⟩,
    .require ⟨.runtime, "m", ["C", "A"]⟩, .require ⟨.entity, "n", ["D"]⟩,
    .decorate ⟨"Injectable", []⟩]

def decoratedFirst : List Step :=
  .decorate ⟨"Injectable", []⟩ :: decoratedLast.dropLast

theorem finish_takeAll_decorated : Step.parts decoratedFirst = Step.parts decoratedLast ∧
    (orderService.takeAll decoratedFirst).finish = (orderService.takeAll decoratedLast).finish ∧
    (orderService.takeAll decoratedLast).finish.imports =
      [⟨.entity, "n", ["D"]⟩, ⟨.args, "m", ["A", "B", "C"]⟩] := by
  have hparts : Step.parts decoratedFirst = Step.parts decoratedLast := by decide
  exact ⟨hparts, (finish_takeAll _ _ _ _ decoratedLast).2.2 _ hparts, by decide⟩

end Interleaved

end Assembly

end CrudLayers
