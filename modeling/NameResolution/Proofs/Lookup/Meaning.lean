import NameResolution.Proofs.Lookup.Arbitration
import NameResolution.Proofs.Ownership

/-!
# What a name means

`Means` says what a name means on a chain of contexts. Who may use a member depends on what owns it
and on what owns that, so a lookup goes outward from owner to owner. It comes to an end if owners
run in no circle.

* `Context.lookup_eq_iff_means`: where they do not, every search outward ends, and a lookup answers
  what `Means` allows and nothing else.
-/

namespace NameResolution

/-- **A lookup answers what `Means` allows, and nothing else,** where owners run in no circle. The
searches outward that it makes then end. -/
theorem Context.lookup_eq_iff_means {cx : Context} (hbuilt : cx.Built) {t : Table}
    (hopen : ∀ sym, ¬ t.toUniverse.Circular sym) {s : Store} {name : Name}
    {qualifies : SymbolId → Bool} (hnative : (s.session cx.session).unit.isInterop = false)
    (hallow : (s.session cx.session).settings.enclosing = .allow)
    (hname : name.isConstructor = false) :
    (∀ sym, t.Settles sym) ∧
      ∀ r, (cx.lookup t.toUniverse name qualifies s).1 = r ↔
        (cx.query t.toUniverse name qualifies s).Means r := by
  constructor
  · exact fun sym => Table.settles_iff_not_circular.mpr (hopen sym)
  · intro r
    have hord : (cx.query t.toUniverse name qualifies s).Ordered :=
      Lookup.Query.ordered_of_grown hbuilt.grown
    exact Lookup.Query.run_eq_iff_means hord hnative hallow hname

/-! ### One program for all cases -/

namespace Holders

/-- The sample objects; class 8, which keeps its value 9 to itself; class 10 below it; object 11,
whose value 12 is erroneous; object 13, which keeps its value 14 to itself. -/
def table : Table :=
  let t := (Sample.table.addClass .root (.ofWord 12)).2
  let t := (t.addValue ⟨8⟩ Sample.name ∅).2.setAccessQualifier ⟨9⟩ ⟨8⟩
  let t := (t.addClass .root (.ofWord 13)).2.addParent ⟨10⟩ ⟨8⟩
  let t := (t.addObject .root (.ofWord 14)).2
  let t := (t.addValue ⟨11⟩ Sample.name (.ofList [.erroneous])).2
  let t := (t.addObject .root (.ofWord 15)).2
  (t.addValue ⟨13⟩ Sample.name ∅).2.setAccessQualifier ⟨14⟩ ⟨13⟩

/-- The same with a value 15 of the root package that another unit declares. -/
def tableBesides : Table := (table.addValue .root Sample.name ∅).2.setUnit ⟨15⟩ (some ⟨2⟩)

/-- Scope 1 has an entry for the value of object 2. -/
def store : Store :=
  { Sample.store #[.empty, Scope.empty.enter Sample.name ⟨3⟩, .empty] with
    names := ["x", "A", "B", "C", "Base", "Derived", "D", "E"].foldl Interner.record .initial }

/-- A block in the block of that scope. -/
def block : Context :=
  ((Sample.root.make .block .root 1 store).1.make .block .root 2 store).1

def body (cls : SymbolId) : Context := (Sample.root.make .template cls 2 store).1

/-- A context below an import of everything from an object. -/
def importing (cx : Context) (object : SymbolId) : Context :=
  (cx.makeImport (Sample.everything object) store).1

/-- A context below an import of the value by its name. -/
def naming (cx : Context) (object : SymbolId) : Context :=
  (cx.makeImport (Sample.naming object) store).1

end Holders

/-- Each case of `Means`: an entry, with nothing against it, an erroneous import or a proper one;
imports where the entry does not qualify; a member in its class and where it may not be used;
nothing at all, and an import of what may not be used; an import by name around one of everything; a
foreign value, alone, against one import and against two. -/
theorem Context.lookup_eq_iff_means_cases :
    let means (t : Table) (cx : Context) (qualifies : SymbolId → Bool) :=
      (cx.query t.toUniverse Sample.name qualifies Holders.store).Means
    let own := means Holders.table
    let foreign := means Holders.tableBesides
    let all : SymbolId → Bool := fun _ => true
    own Holders.block all (.succeeded (some (.self .root)) (.single ⟨3⟩)) ∧
    own (Holders.importing Holders.block ⟨11⟩) all
      (.succeeded (some (.self .root)) (.single ⟨3⟩)) ∧
    own (Holders.importing Holders.block ⟨4⟩) all
      (.ambiguous (.definedAndImported Sample.name ⟨2⟩ ⟨.path ⟨4⟩, .dummy, false⟩)) ∧
    own (Holders.importing Holders.block ⟨4⟩) (· != ⟨3⟩)
      (.succeeded (some (.path ⟨4⟩)) (.single ⟨5⟩)) ∧
    own (Holders.body ⟨8⟩) all (.succeeded (some (.self ⟨8⟩)) (.single ⟨9⟩)) ∧
    own (Holders.body ⟨10⟩) all
      (.inaccessible (.single ⟨9⟩) "Base.x is only accessible within Base") ∧
    own Sample.root all .notFound ∧
    own (Holders.importing Sample.root ⟨13⟩) all .notFound ∧
    own (Holders.importing (Holders.naming Sample.root ⟨2⟩) ⟨4⟩) all
      (.succeeded (some (.path ⟨2⟩)) (.single ⟨3⟩)) ∧
    foreign Sample.root all (.succeeded none (.single ⟨15⟩)) ∧
    foreign (Holders.importing Sample.root ⟨4⟩) all
      (.succeeded (some (.path ⟨4⟩)) (.single ⟨5⟩)) ∧
    foreign (Holders.importing (Holders.importing Sample.root ⟨4⟩) ⟨2⟩) all
      (.ambiguous (.imports Sample.name ⟨.path ⟨2⟩, .dummy, false⟩ ⟨.path ⟨4⟩, .dummy, false⟩)) := by
  intro means own foreign all
  have hroot : Context.Built Sample.root := .openRoot 0 .root 0 _
  have hblock : Context.Built Holders.block := (hroot.make .block .root 1 _).make .block .root 2 _
  have hmeans {t : Table} {cx : Context} (hbuilt : cx.Built) (hfirst : t.OwnersFirst)
      (hnative : (Holders.store.session cx.session).unit.isInterop = false)
      (hallow : (Holders.store.session cx.session).settings.enclosing = .allow)
      {qualifies : SymbolId → Bool} {r : LookupResult}
      (h : (cx.lookup t.toUniverse Sample.name qualifies Holders.store).1 = r) :
      means t cx qualifies r :=
    ((lookup_eq_iff_means hbuilt hfirst.not_circular hnative hallow rfl).2 r).mp h
  have hown : Holders.table.OwnersFirst := by decide +kernel
  have hforeign : Holders.tableBesides.OwnersFirst := by decide +kernel
  refine ⟨hmeans hblock hown rfl rfl ?_, hmeans (hblock.makeImport _ _) hown rfl rfl ?_,
    hmeans (hblock.makeImport _ _) hown rfl rfl ?_, hmeans (hblock.makeImport _ _) hown rfl rfl ?_,
    hmeans (hroot.make .template ⟨8⟩ 2 _) hown rfl rfl ?_,
    hmeans (hroot.make .template ⟨10⟩ 2 _) hown rfl rfl ?_, hmeans hroot hown rfl rfl ?_,
    hmeans (hroot.makeImport _ _) hown rfl rfl ?_,
    hmeans ((hroot.makeImport _ _).makeImport _ _) hown rfl rfl ?_,
    hmeans hroot hforeign rfl rfl ?_, hmeans (hroot.makeImport _ _) hforeign rfl rfl ?_,
    hmeans ((hroot.makeImport _ _).makeImport _ _) hforeign rfl rfl ?_⟩ <;>
    decide +kernel

end NameResolution
