import FeatureLines.Bundled.Language

/-!
# Bundled languages from pa to sv
-/

namespace FeatureLines

def bundledOToS : List BundledLanguage := [
  { code := "pa"
    name := "Panjabi"
    native := "ਪੰਜਾਬੀ"
    feature := ["ਖਾਸੀਅਤ", "ਮੁਹਾਂਦਰਾ", "ਨਕਸ਼ ਨੁਹਾਰ"]
    background := ["ਪਿਛੋਕੜ"]
    rule := ["Rule"]
    scenario := ["ਉਦਾਹਰਨ", "ਪਟਕਥਾ"]
    scenarioOutline := ["ਪਟਕਥਾ ਢਾਂਚਾ", "ਪਟਕਥਾ ਰੂਪ ਰੇਖਾ"]
    examples := ["ਉਦਾਹਰਨਾਂ"]
    givenStep := ["* ", "ਜੇਕਰ ", "ਜਿਵੇਂ ਕਿ "]
    whenStep := ["* ", "ਜਦੋਂ "]
    thenStep := ["* ", "ਤਦ "]
    andStep := ["* ", "ਅਤੇ "]
    butStep := ["* ", "ਪਰ "] },
  { code := "pl"
    name := "Polish"
    native := "polski"
    feature := ["Właściwość", "Funkcja", "Aspekt", "Potrzeba biznesowa"]
    background := ["Założenia"]
    rule := ["Zasada", "Reguła"]
    scenario := ["Przykład", "Scenariusz"]
    scenarioOutline := ["Szablon scenariusza"]
    examples := ["Przykłady"]
    givenStep := ["* ", "Zakładając ", "Mając ", "Zakładając, że "]
    whenStep := ["* ", "Jeżeli ", "Jeśli ", "Gdy ", "Kiedy "]
    thenStep := ["* ", "Wtedy "]
    andStep := ["* ", "Oraz ", "I "]
    butStep := ["* ", "Ale "] },
  { code := "pt"
    name := "Portuguese"
    native := "português"
    feature := ["Funcionalidade", "Característica", "Caracteristica"]
    background := ["Contexto", "Cenário de Fundo", "Cenario de Fundo", "Fundo"]
    rule := ["Regra"]
    scenario := ["Exemplo", "Cenário", "Cenario"]
    scenarioOutline := ["Esquema do Cenário", "Esquema do Cenario", "Delineação do Cenário",
      "Delineacao do Cenario"]
    examples := ["Exemplos", "Cenários", "Cenarios"]
    givenStep := ["* ", "Dado ", "Dada ", "Dados ", "Dadas "]
    whenStep := ["* ", "Quando "]
    thenStep := ["* ", "Então ", "Entao "]
    andStep := ["* ", "E "]
    butStep := ["* ", "Mas "] },
  { code := "ro"
    name := "Romanian"
    native := "română"
    feature := ["Functionalitate", "Funcționalitate", "Funcţionalitate"]
    background := ["Context"]
    rule := ["Rule"]
    scenario := ["Exemplu", "Scenariu"]
    scenarioOutline := ["Structura scenariu", "Structură scenariu"]
    examples := ["Exemple"]
    givenStep := ["* ", "Date fiind ", "Dat fiind ", "Dată fiind", "Dati fiind ", "Dați fiind ",
      "Daţi fiind "]
    whenStep := ["* ", "Cand ", "Când "]
    thenStep := ["* ", "Atunci "]
    andStep := ["* ", "Si ", "Și ", "Şi "]
    butStep := ["* ", "Dar "] },
  { code := "ru"
    name := "Russian"
    native := "русский"
    feature := ["Функция", "Функциональность", "Функционал", "Свойство", "Фича"]
    background := ["Предыстория", "Контекст"]
    rule := ["Правило"]
    scenario := ["Пример", "Сценарий"]
    scenarioOutline := ["Структура сценария", "Шаблон сценария"]
    examples := ["Примеры"]
    givenStep := ["* ", "Допустим ", "Дано ", "Пусть "]
    whenStep := ["* ", "Когда ", "Если "]
    thenStep := ["* ", "То ", "Затем ", "Тогда "]
    andStep := ["* ", "И ", "К тому же ", "Также "]
    butStep := ["* ", "Но ", "А ", "Иначе "] },
  { code := "sk"
    name := "Slovak"
    native := "Slovensky"
    feature := ["Požiadavka", "Funkcia", "Vlastnosť"]
    background := ["Pozadie"]
    rule := ["Rule"]
    scenario := ["Príklad", "Scenár"]
    scenarioOutline := ["Náčrt Scenáru", "Náčrt Scenára", "Osnova Scenára"]
    examples := ["Príklady"]
    givenStep := ["* ", "Pokiaľ ", "Za predpokladu "]
    whenStep := ["* ", "Keď ", "Ak "]
    thenStep := ["* ", "Tak ", "Potom "]
    andStep := ["* ", "A ", "A tiež ", "A taktiež ", "A zároveň "]
    butStep := ["* ", "Ale "] },
  { code := "sl"
    name := "Slovenian"
    native := "Slovenski"
    feature := ["Funkcionalnost", "Funkcija", "Možnosti", "Moznosti", "Lastnost", "Značilnost"]
    background := ["Kontekst", "Osnova", "Ozadje"]
    rule := ["Rule"]
    scenario := ["Primer", "Scenarij"]
    scenarioOutline := ["Struktura scenarija", "Skica", "Koncept", "Oris scenarija", "Osnutek"]
    examples := ["Primeri", "Scenariji"]
    givenStep := ["* ", "Dano ", "Podano ", "Zaradi ", "Privzeto "]
    whenStep := ["* ", "Ko ", "Ce ", "Če ", "Kadar "]
    thenStep := ["* ", "Nato ", "Potem ", "Takrat "]
    andStep := ["* ", "In ", "Ter "]
    butStep := ["* ", "Toda ", "Ampak ", "Vendar "] },
  { code := "sr-Cyrl"
    name := "Serbian"
    native := "Српски"
    feature := ["Функционалност", "Могућност", "Особина"]
    background := ["Контекст", "Основа", "Позадина"]
    rule := ["Правило"]
    scenario := ["Пример", "Сценарио", "Пример"]
    scenarioOutline := ["Структура сценарија", "Скица", "Концепт"]
    examples := ["Примери", "Сценарији"]
    givenStep := ["* ", "За дато ", "За дате ", "За дати "]
    whenStep := ["* ", "Када ", "Кад "]
    thenStep := ["* ", "Онда "]
    andStep := ["* ", "И "]
    butStep := ["* ", "Али "] },
  { code := "sr-Latn"
    name := "Serbian (Latin)"
    native := "Srpski (Latinica)"
    feature := ["Funkcionalnost", "Mogućnost", "Mogucnost", "Osobina"]
    background := ["Kontekst", "Osnova", "Pozadina"]
    rule := ["Pravilo"]
    scenario := ["Scenario", "Primer"]
    scenarioOutline := ["Struktura scenarija", "Skica", "Koncept"]
    examples := ["Primeri", "Scenariji"]
    givenStep := ["* ", "Za dato ", "Za date ", "Za dati "]
    whenStep := ["* ", "Kada ", "Kad "]
    thenStep := ["* ", "Onda "]
    andStep := ["* ", "I "]
    butStep := ["* ", "Ali "] },
  { code := "sv"
    name := "Swedish"
    native := "Svenska"
    feature := ["Egenskap"]
    background := ["Bakgrund"]
    rule := ["Regel"]
    scenario := ["Scenario"]
    scenarioOutline := ["Abstrakt Scenario", "Scenariomall"]
    examples := ["Exempel"]
    givenStep := ["* ", "Givet "]
    whenStep := ["* ", "När "]
    thenStep := ["* ", "Så "]
    andStep := ["* ", "Och "]
    butStep := ["* ", "Men "] }]

end FeatureLines
