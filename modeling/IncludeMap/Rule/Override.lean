import IncludeMap.Config.Basic

/-! # Overrides

Macros and free functions have no header named after them, so no scan finds them. The rules for them
are listed here, and those of the configuration follow. They precede all rules of a scan.
-/
namespace IncludeMap

def debugOverride : SymbolRule := ⟨"qDebug", "QtGlobal"⟩

def objectHeader : String := "QObject"

def objectSymbols : List String :=
  ["QObjectList", "qFindChildren", "qobject_cast", "QT_NO_NARROWING_CONVERSIONS_IN_CONNECT",
    "Q_CLASSINFO", "Q_DISABLE_COPY", "Q_DISABLE_COPY_MOVE", "Q_DISABLE_MOVE", "Q_EMIT", "Q_ENUM",
    "Q_ENUM_NS", "Q_FLAG", "Q_FLAG_NS", "Q_GADGET", "Q_INTERFACES", "Q_INVOKABLE", "Q_NAMESPACE",
    "Q_NAMESPACE_EXPORT", "Q_OBJECT", "Q_PROPERTY", "Q_REVISION", "Q_SET_OBJECT_NAME", "Q_SIGNAL",
    "Q_SIGNALS", "Q_SLOT", "Q_SLOTS", "emit", "slots", "signals", "SIGNAL", "SLOT"]

/-- The private header of the namespace that the public header `Qt` stands for. -/
def namespaceOverride : IncludeRule := ⟨"QtCore", "qnamespace", "Qt"⟩

def builtinOverrides : RuleSet :=
  ⟨debugOverride :: objectSymbols.map (⟨·, objectHeader⟩), [namespaceOverride]⟩

/-- All rules that precede those of a scan. -/
def Config.overrides (c : Config) : RuleSet :=
  builtinOverrides ++ ⟨c.extraSymbols, c.extraIncludes⟩

end IncludeMap
