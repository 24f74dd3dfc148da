import Lineage.Text.Uppercase

/-!
# Known words

Words that a source text uses without referring to an object of the user: keywords of SQL, the
functions and packages that come with the database, the schemas that belong to it, and the words
that open a line of a package specification without declaring a variable. All are looked up by upper
case.
-/

namespace Lineage.Source

/-- Words that may follow `FROM`, `JOIN`, `UPDATE` and the like without naming a table. -/
def sqlKeywords : List String :=
  ["SELECT", "INSERT", "UPDATE", "DELETE", "FROM", "WHERE", "AND", "OR", "INTO", "VALUES", "SET",
    "JOIN", "LEFT", "RIGHT", "INNER", "OUTER", "ON", "AS", "IN", "NOT", "NULL", "IS", "LIKE",
    "BETWEEN", "EXISTS", "HAVING", "GROUP", "BY", "ORDER", "ASC", "DESC", "LIMIT", "OFFSET",
    "UNION", "ALL", "DISTINCT", "TOP", "CASE", "WHEN", "THEN", "ELSE", "END", "IF", "BEGIN",
    "DECLARE", "CURSOR", "OPEN", "CLOSE", "FETCH", "DUAL", "TABLE", "VIEW", "INDEX", "CREATE",
    "DROP", "ALTER", "TRUNCATE"]

/-- Functions that come with the database. -/
def builtInFunctions : List String :=
  ["NVL", "NVL2", "DECODE", "COALESCE", "NULLIF", "CASE", "TO_CHAR", "TO_DATE", "TO_NUMBER",
    "TO_TIMESTAMP", "UPPER", "LOWER", "INITCAP", "TRIM", "LTRIM", "RTRIM", "SUBSTR", "INSTR",
    "LENGTH", "REPLACE", "TRANSLATE", "ROUND", "TRUNC", "ABS", "CEIL", "FLOOR", "MOD", "POWER",
    "SQRT", "SIGN", "SIN", "COS", "TAN", "LOG", "EXP", "SYSDATE", "SYSTIMESTAMP", "CURRENT_DATE",
    "CURRENT_TIMESTAMP", "ADD_MONTHS", "MONTHS_BETWEEN", "LAST_DAY", "NEXT_DAY", "EXTRACT",
    "COUNT", "SUM", "AVG", "MIN", "MAX", "FIRST", "LAST", "LEAD", "LAG", "ROW_NUMBER", "RANK",
    "DENSE_RANK", "ROWNUM", "ROWID", "SYS_GUID", "RAWTOHEX", "HEXTORAW", "CAST", "CONVERT",
    "LISTAGG", "XMLAGG"]

/-- Packages that come with the database. -/
def builtInPackages : List String :=
  ["DBMS_OUTPUT", "DBMS_SQL", "DBMS_METADATA", "DBMS_LOB", "DBMS_UTILITY", "DBMS_RANDOM",
    "DBMS_SCHEDULER", "DBMS_JOB", "DBMS_LOCK", "DBMS_SESSION", "DBMS_FLASHBACK", "DBMS_CRYPTO",
    "UTL_FILE", "UTL_HTTP", "UTL_SMTP", "UTL_RAW", "UTL_ENCODE", "SYS", "STANDARD", "DUAL"]

/-- Schemas that belong to the database, in alphabetical order. -/
def systemSchemas : List String :=
  ["CTXSYS", "MDSYS", "OLAPSYS", "ORDPLUGINS", "ORDSYS", "OUTLN", "SYS", "SYSMAN", "SYSTEM",
    "WKSYS", "WMSYS", "XDB"]

/-- Words that open a line of a package specification without declaring a variable. -/
def declarationKeywords : List String :=
  ["PROCEDURE", "FUNCTION", "TYPE", "BEGIN", "END", "IF", "THEN", "ELSE", "ELSIF", "LOOP", "WHILE",
    "FOR", "RETURN", "IS", "AS", "DECLARE", "EXCEPTION", "WHEN", "OTHERS", "CURSOR", "OPEN",
    "CLOSE", "FETCH", "INTO", "SELECT", "FROM", "WHERE", "AND", "OR", "NOT", "NULL", "TRUE",
    "FALSE", "PRAGMA", "SUBTYPE"]

/-- Whether a word is a keyword of SQL. -/
def isSqlKeyword (word : String) : Bool := sqlKeywords.contains (Text.upcase word)

/-- Whether a function comes with the database. -/
def isBuiltInFunction (name : String) : Bool := builtInFunctions.contains (Text.upcase name)

/-- Whether a package comes with the database. -/
def isBuiltInPackage (name : String) : Bool := builtInPackages.contains (Text.upcase name)

/-- Whether a schema belongs to the database. -/
def isSystemSchema (owner : String) : Bool := systemSchemas.contains (Text.upcase owner)

/-- Whether a word opens a line without declaring a variable. -/
def isDeclarationKeyword (word : String) : Bool := declarationKeywords.contains (Text.upcase word)

end Lineage.Source
