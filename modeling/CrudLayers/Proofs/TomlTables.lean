import CrudLayers.Config.Toml.Document
import CrudLayers.Proofs.Tables

namespace CrudLayers.Toml

open Setting

/-- Whatever a reader returns has a property. -/
def Reader.Yields {α : Type} (P : α → Prop) (read : Reader α) : Prop :=
  ∀ s a rest, read s = some (a, rest) → P a

section Put

variable {α : Type} {key : String} {v : α} {e : String × α} {entries : List (String × α)}

/-- Two kinds of trees are put into tables in one way: over the entry with the same key, or else
after all others. Either way nothing comes in but the new entry. -/
theorem mem_of_replaced {put : String → α → List (String × α) → List (String × α)}
    (hnil : put key v [] = [(key, v)])
    (hcons : ∀ k w rest, put key v ((k, w) :: rest) =
      if k = key then (key, v) :: rest else (k, w) :: put key v rest)
    (h : e ∈ put key v entries) : e = (key, v) ∨ e ∈ entries := by
  induction entries with
  | nil =>
    rw [hnil, List.mem_singleton] at h
    exact .inl h
  | cons first rest ih =>
    rw [hcons] at h
    split at h
    · exact (List.mem_cons.mp h).imp id (List.mem_cons_of_mem _)
    · rcases List.mem_cons.mp h with rfl | h
      · exact .inr List.mem_cons_self
      · exact (ih h).imp id (List.mem_cons_of_mem _)

end Put

theorem Node.mem_put {key : String} {n : Node} {e : String × Node} {entries : List (String × Node)}
    (h : e ∈ Node.put key n entries) : e = (key, n) ∨ e ∈ entries :=
  mem_of_replaced rfl (fun _ _ _ => rfl) h

theorem Draft.mem_put {key : String} {d : Draft} {e : String × Draft}
    {entries : List (String × Draft)} (h : e ∈ Draft.put key d entries) :
    e = (key, d) ∨ e ∈ entries :=
  mem_of_replaced rfl (fun _ _ _ => rfl) h

inductive Draft.Sound : Draft → Prop
  | closed {v : Setting} (h : v.Ordered) : Draft.Sound (.closed v)
  | growing {entries : List (String × Draft)} (h : ∀ e ∈ entries, e.2.Sound) :
    Draft.Sound (.growing entries)

theorem Draft.ordered_settings {entries : List (String × Draft)}
    (h : ∀ e ∈ entries, e.2.setting.Ordered) : (table (Draft.settings entries)).Ordered := by
  induction entries with
  | nil =>
    rw [Draft.settings]
    exact ordered_empty
  | cons e rest ih =>
    rw [Draft.settings]
    exact (ih (fun e' he' => h e' (List.mem_cons_of_mem _ he'))).put (h e List.mem_cons_self)

theorem Draft.Sound.ordered {d : Draft} (h : d.Sound) : d.setting.Ordered := by
  induction h with
  | closed h =>
    rw [Draft.setting]
    exact h
  | growing _ ih =>
    rw [Draft.setting]
    exact Draft.ordered_settings ih

theorem Draft.Sound.put {key : String} {d : Draft} {entries : List (String × Draft)}
    (h : ∀ e ∈ entries, e.2.Sound) (hd : d.Sound) : ∀ e ∈ Draft.put key d entries, e.2.Sound := by
  intro e he
  rcases Draft.mem_put he with rfl | he
  · exact hd
  · exact h e he

theorem Draft.Sound.assign {key : List String} {v : Setting} {entries after : List (String × Draft)}
    (h : ∀ e ∈ entries, e.2.Sound) (hv : v.Ordered)
    (hassign : Draft.assign entries v key = some after) :
    ∀ e ∈ after, e.2.Sound := by
  induction key generalizing entries after with
  | nil => simp [Draft.assign] at hassign
  | cons first rest ih =>
    cases rest with
    | nil =>
      rw [Draft.assign] at hassign
      split at hassign
      · cases hassign
      · cases hassign
        exact Draft.Sound.put h (.closed hv)
    | cons second rest =>
      rw [Draft.assign] at hassign
      · split at hassign
        · obtain ⟨inner, hinner, hafter⟩ := Option.bind_eq_some_iff.mp hassign
          cases hafter
          exact Draft.Sound.put h (.growing (ih (List.forall_mem_nil _) hinner))
        · rename_i earlier hlookup
          obtain ⟨inner, hinner, hafter⟩ := Option.bind_eq_some_iff.mp hassign
          cases hafter
          have hearlier : (Draft.growing earlier).Sound := h _ (mem_of_lookup hlookup)
          cases hearlier with
          | growing hearlier => exact Draft.Sound.put h (.growing (ih hearlier hinner))
        · cases hassign
      · simp

theorem Reader.Yields.assigned {read : Reader Setting} (h : read.Yields Ordered) :
    (readAssigned read).Yields Ordered := by
  intro s v rest hread
  obtain ⟨s', _, hv⟩ := Option.bind_eq_some_iff.mp hread
  exact h _ _ _ hv

theorem ordered_of_readArrayItems {read : Reader Setting} (h : read.Yields Ordered) {steps : Nat}
    {s rest : List Char} {items : List Setting}
    (hread : readArrayItems read steps s = some (items, rest)) : ∀ v ∈ items, v.Ordered := by
  induction steps generalizing s items rest with
  | zero => cases hread
  | succ steps ih =>
    obtain ⟨s', _, hread⟩ := Option.bind_eq_some_iff.mp hread
    split at hread
    · cases hread
      exact fun v hv => nomatch hv
    · obtain ⟨⟨item, rest'⟩, hitem, hread⟩ := Option.bind_eq_some_iff.mp hread
      obtain ⟨s'', _, hread⟩ := Option.bind_eq_some_iff.mp hread
      have hfirst : item.Ordered := h _ _ _ hitem
      split at hread
      · obtain ⟨⟨more, _⟩, hmore, hread⟩ := Option.bind_eq_some_iff.mp hread
        cases hread
        exact List.forall_mem_cons.mpr ⟨hfirst, ih hmore⟩
      · cases hread
        exact List.forall_mem_singleton.mpr hfirst
      · cases hread

theorem sound_of_readInlineEntries {read : Reader Setting} (h : read.Yields Ordered) {steps : Nat}
    {s rest : List Char} {entries after : List (String × Draft)}
    (hentries : ∀ e ∈ entries, e.2.Sound)
    (hread : readInlineEntries read steps entries s = some (after, rest)) :
    ∀ e ∈ after, e.2.Sound := by
  induction steps generalizing s entries with
  | zero => cases hread
  | succ steps ih =>
    obtain ⟨⟨key, _⟩, _, hread⟩ := Option.bind_eq_some_iff.mp hread
    obtain ⟨⟨v, _⟩, hv, hread⟩ := Option.bind_eq_some_iff.mp hread
    obtain ⟨more, hmore, hread⟩ := Option.bind_eq_some_iff.mp hread
    have hsound := Draft.Sound.assign hentries (h.assigned _ _ _ hv) hmore
    split at hread
    · exact ih hsound hread
    · cases hread
      exact hsound
    · cases hread

theorem Reader.Yields.inlineTable {read : Reader Setting} (h : read.Yields Ordered) :
    (readInlineTable read).Yields Ordered := by
  intro s v rest hread
  rw [readInlineTable] at hread
  split at hread
  · cases hread
    exact ordered_empty
  · obtain ⟨⟨after, _⟩, hafter, hread⟩ := Option.bind_eq_some_iff.mp hread
    cases hread
    have hsound := sound_of_readInlineEntries h (List.forall_mem_nil _) hafter
    exact Draft.ordered_settings (fun e he => (hsound e he).ordered)

theorem yields_readNumeric : Reader.Yields Ordered readNumeric := by
  intro s v rest hread
  rw [readNumeric] at hread
  split at hread
  · cases hread
    exact .table (List.pairwise_singleton _ _) (List.forall_mem_singleton.mpr (.text _))
  · split at hread
    · cases hread
      exact .float _
    · obtain ⟨n, _, hn⟩ := Option.map_eq_some_iff.mp hread
      cases hn
      exact .signed _

/-- One value is ordered if those inside its brackets, which have less room, are. -/
theorem yields_readValue_of_inner {room : Nat}
    (h : ∀ inner, room = inner + 1 → (readValue inner).Yields Ordered) :
    (readValue room).Yields Ordered := by
  intro s v rest hread
  unfold readValue at hread
  split at hread
  · -- an array
    cases room with
    | zero => cases hread
    | succ inner =>
      obtain ⟨⟨items, _⟩, hitems, hv⟩ := Option.map_eq_some_iff.mp hread
      cases hv
      exact .list (ordered_of_readArrayItems (h inner rfl) hitems)
  · -- an inline table
    cases room with
    | zero => cases hread
    | succ inner => exact (h inner rfl).inlineTable _ _ _ hread
  · cases hread
    exact .flag _
  · cases hread
    exact .flag _
  · split at hread
    · obtain ⟨r, _, hv⟩ := Option.map_eq_some_iff.mp hread
      cases hv
      exact .text _
    · obtain ⟨r, _, hv⟩ := Option.map_eq_some_iff.mp hread
      cases hv
      exact .text _
    · exact yields_readNumeric _ _ _ hread

theorem yields_readValue (room : Nat) : (readValue room).Yields Ordered := by
  induction room with
  | zero => exact yields_readValue_of_inner (fun inner h => nomatch h)
  | succ room ih => exact yields_readValue_of_inner (fun inner h => by cases h; exact ih)

def Line.Sound : Line → Prop
  | .header _ _ => True
  | .entry _ v => v.Ordered

theorem yields_readHeader : Reader.Yields Line.Sound readHeader := by
  intro s line rest hread
  unfold readHeader at hread
  split at hread
  · obtain ⟨⟨key, _⟩, _, hread⟩ := Option.bind_eq_some_iff.mp hread
    dsimp only at hread
    split at hread
    · cases hread
      trivial
    · cases hread
  · obtain ⟨⟨key, _⟩, _, hread⟩ := Option.bind_eq_some_iff.mp hread
    dsimp only at hread
    split at hread
    · cases hread
      trivial
    · cases hread
  · cases hread

theorem yields_readEntry : Reader.Yields Line.Sound readEntry := by
  intro s line rest hread
  obtain ⟨⟨key, _⟩, _, hread⟩ := Option.bind_eq_some_iff.mp hread
  obtain ⟨⟨v, _⟩, hv, hread⟩ := Option.bind_eq_some_iff.mp hread
  cases hread
  exact (yields_readValue _).assigned _ _ _ hv

theorem sound_of_readLines {steps : Nat} {s : List Char} {lines : List Line}
    (hread : readLines steps s = some lines) : ∀ line ∈ lines, line.Sound := by
  induction steps generalizing s lines with
  | zero => cases hread
  | succ steps ih =>
    rw [readLines] at hread
    split at hread
    · cases hread
      exact List.forall_mem_nil _
    · split at hread
      · obtain ⟨rest, _, hrest⟩ := Option.bind_eq_some_iff.mp hread
        exact ih hrest
      · dsimp only at hread
        split at hread
        all_goals
          obtain ⟨⟨line, rest⟩, hline, hread⟩ := Option.bind_eq_some_iff.mp hread
          obtain ⟨rest', _, hread⟩ := Option.bind_eq_some_iff.mp hread
          obtain ⟨more, hmore, hread⟩ := Option.bind_eq_some_iff.mp hread
          cases hread
        · exact List.forall_mem_cons.mpr ⟨yields_readHeader _ _ _ hline, ih hmore⟩
        · exact List.forall_mem_cons.mpr ⟨yields_readEntry _ _ _ hline, ih hmore⟩

inductive Node.Sound : Node → Prop
  | value {v : Setting} (h : v.Ordered) : Node.Sound (.value v)
  | table {state : TableState} {entries : List (String × Node)} (h : ∀ e ∈ entries, e.2.Sound) :
    Node.Sound (.table state entries)
  | tables {last : List (String × Node)} {earlier : List Node} (hlast : ∀ e ∈ last, e.2.Sound)
    (hearlier : ∀ n ∈ earlier, n.Sound) : Node.Sound (.tables last earlier)

theorem Node.ordered_settings {entries : List (String × Node)}
    (h : ∀ e ∈ entries, e.2.setting.Ordered) : (Setting.table (Node.settings entries)).Ordered := by
  induction entries with
  | nil =>
    rw [Node.settings]
    exact ordered_empty
  | cons e rest ih =>
    rw [Node.settings]
    exact (ih (fun e' he' => h e' (List.mem_cons_of_mem _ he'))).put (h e List.mem_cons_self)

theorem Node.ordered_settingList {nodes : List Node} (h : ∀ n ∈ nodes, n.setting.Ordered) :
    ∀ v ∈ Node.settingList nodes, v.Ordered := by
  induction nodes with
  | nil =>
    rw [Node.settingList]
    exact List.forall_mem_nil _
  | cons n rest ih =>
    rw [Node.settingList, List.forall_mem_append]
    exact ⟨ih (fun n' hn' => h n' (List.mem_cons_of_mem _ hn')),
      List.forall_mem_singleton.mpr (h n List.mem_cons_self)⟩

theorem Node.Sound.ordered {n : Node} (h : n.Sound) : n.setting.Ordered := by
  induction h with
  | value h =>
    rw [Node.setting]
    exact h
  | table _ ih =>
    rw [Node.setting]
    exact Node.ordered_settings ih
  | tables _ _ ihlast ihearlier =>
    rw [Node.setting]
    exact .list (List.forall_mem_append.mpr ⟨Node.ordered_settingList ihearlier,
      List.forall_mem_singleton.mpr (Node.ordered_settings ihlast)⟩)

def Section.Sound (s : Section) : Prop :=
  ∀ e ∈ s.entries, e.2.Sound

namespace Section

variable {s s' : Section} {key : String} {n : Node}

theorem Sound.put (h : s.Sound) (hn : n.Sound) :
    Sound { s with entries := Node.put key n s.entries } := by
  intro e he
  rcases Node.mem_put he with rfl | he
  · exact hn
  · exact h e he

theorem Sound.lookup (h : s.Sound) (hlookup : s.entries.lookup key = some n) : n.Sound :=
  h _ (mem_of_lookup hlookup)

/-- A change of one table leaves the tree around it sound. -/
theorem Sound.change {made : TableState} {f : Section → Option Section} {way : List String}
    (h : s.Sound) (hf : ∀ t t', t.Sound → f t = some t' → t'.Sound)
    (hchange : Section.change made f way s = some s') : s'.Sound := by
  induction way generalizing s s' with
  | nil => exact hf s s' h hchange
  | cons key rest ih =>
    rw [Section.change] at hchange
    split at hchange
    · obtain ⟨inner, hinner, hs⟩ := Option.bind_eq_some_iff.mp hchange
      cases hs
      exact h.put (.table (ih (s := ⟨made, []⟩) (List.forall_mem_nil _) hinner))
    · rename_i state entries hlookup
      split at hchange
      · cases hchange
      · obtain ⟨inner, hinner, hs⟩ := Option.bind_eq_some_iff.mp hchange
        cases hs
        cases h.lookup hlookup with
        | table hentries => exact h.put (.table (ih (s := ⟨state, entries⟩) hentries hinner))
    · rename_i last earlier hlookup
      obtain ⟨inner, hinner, hs⟩ := Option.bind_eq_some_iff.mp hchange
      cases hs
      cases h.lookup hlookup with
      | tables hlast hearlier =>
        exact h.put (.tables (ih (s := ⟨.defined, last⟩) hlast hinner) hearlier)
    · cases hchange

theorem Sound.assign {dotted : Bool} {v : Setting} (h : s.Sound) (hv : v.Ordered)
    (hassign : Section.assign dotted key v s = some s') : s'.Sound := by
  rw [Section.assign] at hassign
  split at hassign
  · cases hassign
    exact h.put (.value hv)
  · cases hassign

theorem Sound.openTable (h : s.Sound) (hopen : Section.openTable key s = some s') : s'.Sound := by
  rw [Section.openTable] at hopen
  split at hopen
  · cases hopen
    exact h.put (.table (List.forall_mem_nil _))
  · rename_i hlookup
    cases hopen
    cases h.lookup hlookup with
    | table hentries => exact h.put (.table hentries)
  · cases hopen

theorem Sound.openRepeated (h : s.Sound) (hopen : Section.openRepeated key s = some s') :
    s'.Sound := by
  rw [Section.openRepeated] at hopen
  split at hopen
  · cases hopen
    exact h.put (.tables (List.forall_mem_nil _) (List.forall_mem_nil _))
  · rename_i hlookup
    cases hopen
    cases h.lookup hlookup with
    | tables hlast hearlier =>
      exact h.put (.tables (List.forall_mem_nil _)
        (List.forall_mem_cons.mpr ⟨.table hlast, hearlier⟩))
  · cases hopen

end Section

theorem sound_of_addLine {d d' : Document} {line : Line} (h : d.root.Sound) (hline : line.Sound)
    (hadd : addLine d line = some d') : d'.root.Sound := by
  cases line with
  | header repeated key =>
    obtain ⟨⟨front, last⟩, _, hadd⟩ := Option.bind_eq_some_iff.mp hadd
    obtain ⟨root, hroot, hd⟩ := Option.bind_eq_some_iff.mp hadd
    cases hd
    refine h.change (fun t t' ht hopen => ?_) hroot
    split at hopen
    · exact ht.openRepeated hopen
    · exact ht.openTable hopen
  | entry key v =>
    obtain ⟨⟨front, last⟩, _, hadd⟩ := Option.bind_eq_some_iff.mp hadd
    obtain ⟨root, hroot, hd⟩ := Option.bind_eq_some_iff.mp hadd
    cases hd
    exact h.change (fun t t' ht hfill =>
      ht.change (fun u u' hu hassign => hu.assign hline hassign) hfill) hroot

theorem sound_of_addLines {lines : List Line} {d d' : Document} (h : d.root.Sound)
    (hlines : ∀ line ∈ lines, line.Sound) (hadd : lines.foldlM addLine d = some d') :
    d'.root.Sound := by
  induction lines generalizing d with
  | nil =>
    cases hadd
    exact h
  | cons line rest ih =>
    obtain ⟨m, hm, hrest⟩ := Option.bind_eq_some_iff.mp hadd
    obtain ⟨hfirst, hlines⟩ := List.forall_mem_cons.mp hlines
    exact ih (sound_of_addLine h hfirst hm) hlines hrest

/-- The keys of the table that a document describes ascend, in that table and in all inside it. -/
theorem ordered_of_parse {s : String} {entries : List (String × Setting)}
    (h : parse? s = some entries) : (Setting.table entries).Ordered := by
  obtain ⟨lines, hlines, h⟩ := Option.bind_eq_some_iff.mp h
  obtain ⟨document, hdocument, h⟩ := Option.bind_eq_some_iff.mp h
  cases h
  have hempty : Section.Sound ⟨.defined, []⟩ := List.forall_mem_nil _
  have hroot := sound_of_addLines (d := ⟨⟨.defined, []⟩, []⟩) hempty (sound_of_readLines hlines)
    hdocument
  exact Node.ordered_settings (fun e he => (hroot e he).ordered)

end CrudLayers.Toml
